import LinuxDriverKb.Lib.CInt
import LinuxDriverKb.Lib.SumUpdate
import LinuxDriverKb.Lib.Transition

/-!
# The counter of `concurrency_control.c`

`concurrency_control_init` starts some threads, waits for their completions and prints the
counter, round after round. A thread increments the counter under a spinlock or a mutex;
an increment is a load and a store. The completions are set up before the first round only :
a wait takes back what the completion has counted.

`counter_exact` : under either lock, over all interleavings, one thread at most is between
lock and unlock, every value printed is the number of increments of a round modulo `2 ^ 32`,
and all threads have finished when a round begins.
-/

set_option autoImplicit false

namespace LinuxDriverKb

namespace ConcurrencyControl

open CInt

/-! ## The module -/

/-- `enum concurrency_control_type`. -/
inductive ControlType
  | null
  | spinlock
  | nutex
  | max
  deriving DecidableEq

/-- `THREAD_CNT`, the iterations of a thread, `TEST_CNT` and the parameter `type`. -/
structure Params where
  threadCnt : ℕ
  iterations : ℕ
  testCnt : ℕ
  type : ControlType

/-- Where a thread is : not started, at the head of its loop, before the load, before the
store of a loaded value plus one, before the unlock, or returned. -/
inductive Pc
  | absent
  | loop
  | load
  | store (v : ℕ)
  | unlock
  | returned
  deriving DecidableEq

/-- A thread : the variable `i` of its loop, and where it is. -/
structure Thread where
  i : ℕ
  pc : Pc
  deriving DecidableEq

/-- A thread by its round and its number in the round. -/
abbrev Tid := ℕ × ℕ

/-- Where `concurrency_control_init` is in a round. -/
inductive Phase
  | reset
  | create (i : ℕ)
  | wait (i : ℕ)
  | print
  | done
  deriving DecidableEq

/-- `pdata.lock` and `pdata.mutex` : the thread that holds each, `none` if it is free. -/
structure Locks where
  lock : Option Tid
  mutex : Option Tid

/-- The holder of the lock of a type. -/
def Locks.holder (l : Locks) : ControlType → Option Tid
  | .spinlock => l.lock
  | .nutex => l.mutex
  | _ => none

/-- The lock of a type gets a holder, or none. -/
def Locks.set (l : Locks) (h : Option Tid) : ControlType → Locks
  | .spinlock => { l with lock := h }
  | .nutex => { l with mutex := h }
  | _ => l

/-- `pdata` with the values of the completions, the threads, where `concurrency_control_init`
is, and the values of the unsigned counter that it has handed to `printk`, whose `%d` shows
them as an `int`. -/
structure State where
  result : ℕ
  locks : Locks
  completion : ℕ → ℕ
  threads : Tid → Thread
  round : ℕ
  phase : Phase
  printed : List ℕ

/-- At the beginning of the first round. -/
def init (result : ℕ) : State where
  result := result
  locks := ⟨none, none⟩
  completion _ := 0
  threads _ := ⟨0, .absent⟩
  round := 0
  phase := .reset
  printed := []

/-- The thread `t` becomes `th`. -/
def State.setThread (s : State) (t : Tid) (th : Thread) : State :=
  { s with threads := Function.update s.threads t th }

variable (P : Params)

/-- One step of `thread_func`. The lock is taken only when it is free. -/
def threadFunc (s : State) (t : Tid) : Option State :=
  let th := s.threads t
  match th.pc with
  | .absent => none
  | .loop =>
    if th.i < P.iterations then
      if s.locks.holder P.type = none then
        some ({ s with locks := s.locks.set (some t) P.type }.setThread t { th with pc := .load })
      else none
    else
      some ({ s with
        completion := Function.update s.completion t.2 (s.completion t.2 + 1) }.setThread
          t { th with pc := .returned })
  | .load => some (s.setThread t { th with pc := .store s.result })
  | .store v => some ({ s with result := inc32 v }.setThread t { th with pc := .unlock })
  | .unlock => some ({ s with locks := s.locks.set none P.type }.setThread t ⟨th.i + 1, .loop⟩)
  | .returned => none

/-- One step of `concurrency_control_init`; it waits while a completion is 0. -/
def concurrencyControlInit (s : State) : Option State :=
  match s.phase with
  | .reset =>
    if s.round < P.testCnt then some { s with result := 0, phase := .create 0 }
    else some { s with phase := .done }
  | .create i =>
    if i < P.threadCnt then
      some { s.setThread (s.round, i) ⟨0, .loop⟩ with phase := .create (i + 1) }
    else some { s with phase := .wait 0 }
  | .wait i =>
    if i < P.threadCnt then
      if 0 < s.completion i then
        some { s with completion := Function.update s.completion i (s.completion i - 1)
                      phase := .wait (i + 1) }
      else none
    else some { s with phase := .print }
  | .print =>
    some { s with printed := s.printed ++ [s.result], round := s.round + 1, phase := .reset }
  | .done => none

/-- The initialisation, or a thread, makes a step. -/
inductive Action
  | init
  | thread (t : Tid)

/-- One step of any of them. -/
def step (s : State) : Action → Option State
  | .init => concurrencyControlInit P s
  | .thread t => threadFunc P s t

/-! ## What holds in every state -/

/-- Between lock and unlock. -/
def Pc.Critical : Pc → Prop
  | .load => True
  | .store _ => True
  | .unlock => True
  | _ => False

/-- Increments a thread has made. -/
def Thread.increments (th : Thread) : ℕ :=
  if th.pc = .unlock then th.i + 1 else th.i

/-- Threads created in the current round. -/
def created (s : State) : ℕ :=
  match s.phase with
  | .create i => i
  | .wait _ => P.threadCnt
  | .print => P.threadCnt
  | _ => 0

/-- Threads waited for in the current round. -/
def waited (s : State) : ℕ :=
  match s.phase with
  | .wait i => i
  | .print => P.threadCnt
  | _ => 0

/-- The counter has been reset in the current round. -/
def Phase.Counting : Phase → Prop
  | .reset => False
  | .done => False
  | _ => True

/-- A thread runs its iterations, and no more. -/
structure Thread.Ok (th : Thread) : Prop where
  le : th.i ≤ P.iterations
  critical : th.pc.Critical → th.i < P.iterations
  returned : th.pc = .returned → th.i = P.iterations

/-- What holds of the threads and of `concurrency_control_init` under every type. -/
structure Joined (s : State) : Prop where
  thread : ∀ t, (s.threads t).Ok P
  fresh : ∀ t, (s.threads t).pc = .absent → (s.threads t).i = 0
  past : ∀ j i, j < s.round → i < P.threadCnt → (s.threads (j, i)).pc = .returned
  present : ∀ i, (s.threads (s.round, i)).pc = .absent ↔ created P s ≤ i
  future : ∀ j i, s.round < j ∨ P.threadCnt ≤ i → (s.threads (j, i)).pc = .absent
  /-- A completion counts its thread from the return to the wait. -/
  completion : ∀ i, s.completion i =
    if waited P s ≤ i ∧ (s.threads (s.round, i)).pc = .returned then 1 else 0
  waitedFor : ∀ i < waited P s, (s.threads (s.round, i)).pc = .returned
  bounds : created P s ≤ P.threadCnt ∧ waited P s ≤ P.threadCnt

/-- The locks, the completions and the counter count what the threads have done. -/
structure Inv (s : State) : Prop extends Joined P s where
  /-- The lock is held by the thread between lock and unlock. -/
  lock : ∀ t, (s.threads t).pc.Critical ↔ s.locks.holder P.type = some t
  /-- A value about to be stored is still that of the counter. -/
  loaded : ∀ t v, (s.threads t).pc = .store v → v = s.result
  rounds : s.round ≤ P.testCnt
  more : s.phase.Counting → s.round < P.testCnt
  finished : s.phase = .done → s.round = P.testCnt
  result : s.phase.Counting → s.result =
    (∑ i ∈ Finset.range (created P s), (s.threads (s.round, i)).increments) % 2 ^ 32
  printed : s.printed = List.replicate s.round (P.threadCnt * P.iterations % 2 ^ 32)

/-! ## Small lemmas -/

section

variable (s : State) (t : Tid) (th : Thread)

@[simp] theorem setThread_result : (s.setThread t th).result = s.result := rfl
@[simp] theorem setThread_locks : (s.setThread t th).locks = s.locks := rfl
@[simp] theorem setThread_completion : (s.setThread t th).completion = s.completion := rfl
@[simp] theorem setThread_round : (s.setThread t th).round = s.round := rfl
@[simp] theorem setThread_phase : (s.setThread t th).phase = s.phase := rfl
@[simp] theorem setThread_printed : (s.setThread t th).printed = s.printed := rfl
@[simp] theorem setThread_threads :
    (s.setThread t th).threads = Function.update s.threads t th := rfl

end

theorem holder_set (l : Locks) (h : Option Tid) {ty : ControlType}
    (hty : ty = .spinlock ∨ ty = .nutex) : (l.set h ty).holder ty = h := by
  rcases hty with rfl | rfl <;> rfl

variable {P}

theorem Thread.ok_loop {i : ℕ} (h : i ≤ P.iterations) : Thread.Ok P ⟨i, .loop⟩ :=
  ⟨h, False.elim, by simp⟩

theorem Thread.ok_critical {th : Thread} (hpc : th.pc.Critical) (h : th.i < P.iterations) :
    th.Ok P :=
  ⟨Nat.le_of_lt h, fun _ => h, fun hret => by simp [hret, Pc.Critical] at hpc⟩

theorem joined_init (result : ℕ) : Joined P (init result) where
  thread t := ⟨Nat.zero_le _, False.elim, by simp [init]⟩
  fresh _ _ := rfl
  past j i h := absurd h (Nat.not_lt_zero j)
  present i := iff_of_true rfl (Nat.zero_le i)
  future _ _ _ := rfl
  completion i := by simp [init]
  waitedFor i h := absurd h (Nat.not_lt_zero i)
  bounds := ⟨Nat.zero_le _, Nat.zero_le _⟩

theorem inv_init (hty : P.type = .spinlock ∨ P.type = .nutex) (result : ℕ) :
    Inv P (init result) where
  toJoined := joined_init result
  lock t := by rcases hty with hty | hty <;> simp [hty, init, Pc.Critical, Locks.holder]
  loaded t v h := by simp [init] at h
  rounds := Nat.zero_le _
  more := False.elim
  finished h := by simp [init] at h
  result := False.elim
  printed := rfl

/-- A thread that is running is one of the current round. -/
theorem Joined.current {s : State} (h : Joined P s) {t : Tid} (ha : (s.threads t).pc ≠ .absent)
    (hr : (s.threads t).pc ≠ .returned) :
    t = (s.round, t.2) ∧ t.2 < created P s ∧ waited P s ≤ t.2 := by
  obtain ⟨j, i⟩ := t
  have hi : i < P.threadCnt := by
    by_contra hge
    exact ha (h.future j i (Or.inr (Nat.not_lt.mp hge)))
  have hj : j = s.round := by
    rcases Nat.lt_trichotomy j s.round with hlt | heq | hgt
    · exact absurd (h.past j i hlt hi) hr
    · exact heq
    · exact absurd (h.future j i (Or.inl hgt)) ha
  subst hj
  refine ⟨rfl, ?_, ?_⟩
  · by_contra hge
    exact ha ((h.present i).mpr (Nat.not_lt.mp hge))
  · by_contra hlt
    exact hr (h.waitedFor i (Nat.not_le.mp hlt))

/-- Two threads are not between lock and unlock at once. -/
theorem Inv.exclusive {s : State} (h : Inv P s) {t u : Tid} (ht : (s.threads t).pc.Critical)
    (hu : (s.threads u).pc.Critical) : t = u :=
  Option.some.inj (((h.lock t).mp ht).symm.trans ((h.lock u).mp hu))

/-! ## A step of a thread -/

/-- What a step of the running thread `t` that leaves it at `th` changes under every type. -/
structure Moved (P : Params) (s s' : State) (t : Tid) (th : Thread) : Prop where
  running : (s.threads t).pc ≠ .absent ∧ (s.threads t).pc ≠ .returned
  threads : s'.threads = Function.update s.threads t th
  phase : s'.phase = s.phase
  round : s'.round = s.round
  printed : s'.printed = s.printed
  present : th.pc ≠ .absent
  ok : th.Ok P
  completion : s'.completion = Function.update s.completion t.2
    (s.completion t.2 + if th.pc = .returned then 1 else 0)

namespace Moved

variable {s s' : State} {t : Tid} {th : Thread}

theorem created_eq (hs : Moved P s s' t th) : created P s' = created P s := by
  rw [created, created, hs.phase]

theorem waited_eq (hs : Moved P s s' t th) : waited P s' = waited P s := by
  rw [waited, waited, hs.phase]

theorem current (hs : Moved P s s' t th) (h : Joined P s) :
    t = (s.round, t.2) ∧ t.2 < created P s ∧ waited P s ≤ t.2 :=
  h.current hs.running.1 hs.running.2

theorem self (hs : Moved P s s' t th) : s'.threads t = th := by
  rw [hs.threads, Function.update_self]

/-- The other threads stay. -/
theorem other (hs : Moved P s s' t th) {u : Tid} (hu : u ≠ t) : s'.threads u = s.threads u := by
  rw [hs.threads, Function.update_of_ne hu]

theorem current_self (hs : Moved P s s' t th) (h : Joined P s) :
    s'.threads (s.round, t.2) = th := by
  rw [← (hs.current h).1, hs.self]

theorem current_other (hs : Moved P s s' t th) {i : ℕ} (hi : i ≠ t.2) :
    s'.threads (s.round, i) = s.threads (s.round, i) :=
  hs.other fun heq => hi (congrArg Prod.snd heq)

theorem thread (hs : Moved P s s' t th) (h : Joined P s) (u : Tid) : (s'.threads u).Ok P := by
  by_cases hu : u = t
  · rw [hu, hs.self]
    exact hs.ok
  · rw [hs.other hu]
    exact h.thread u

theorem fresh (hs : Moved P s s' t th) (h : Joined P s) {u : Tid}
    (hu : (s'.threads u).pc = .absent) : (s'.threads u).i = 0 := by
  by_cases hut : u = t
  · rw [hut, hs.self] at hu
    exact absurd hu hs.present
  · rw [hs.other hut] at hu ⊢
    exact h.fresh u hu

/-- The threads of the rounds before are not the one that runs. -/
theorem past (hs : Moved P s s' t th) (h : Joined P s) {j i : ℕ} (hj : j < s.round)
    (hi : i < P.threadCnt) : (s'.threads (j, i)).pc = .returned := by
  rw [hs.other fun heq => Nat.ne_of_lt hj (congrArg Prod.fst (heq.trans (hs.current h).1))]
  exact h.past j i hj hi

theorem present_iff (hs : Moved P s s' t th) (h : Joined P s) (i : ℕ) :
    (s'.threads (s.round, i)).pc = .absent ↔ created P s ≤ i := by
  by_cases hi : i = t.2
  · rw [hi, hs.current_self h]
    exact iff_of_false hs.present (Nat.not_le.mpr (hs.current h).2.1)
  · rw [hs.current_other hi]
    exact h.present i

/-- Nor are those that do not exist yet. -/
theorem future (hs : Moved P s s' t th) (h : Joined P s) {j i : ℕ}
    (hji : s.round < j ∨ P.threadCnt ≤ i) : (s'.threads (j, i)).pc = .absent := by
  obtain ⟨ht, hlt, -⟩ := hs.current h
  have hne : (j, i) ≠ t := by
    intro heq
    have hj : j = s.round := congrArg Prod.fst (heq.trans ht)
    have hi : i = t.2 := congrArg Prod.snd heq
    have hle := h.bounds.1
    omega
  rw [hs.other hne]
  exact h.future j i hji

/-- A completion counts the running thread once it returns. -/
theorem completion_eq (hs : Moved P s s' t th) (h : Joined P s) (i : ℕ) :
    s'.completion i =
      if waited P s ≤ i ∧ (s'.threads (s.round, i)).pc = .returned then 1 else 0 := by
  obtain ⟨ht, -, hge⟩ := hs.current h
  rw [hs.completion]
  by_cases hi : i = t.2
  · have hzero := h.completion t.2
    rw [if_neg fun hc => hs.running.2 (by rw [ht]; exact hc.2)] at hzero
    rw [hi, Function.update_self, hs.current_self h, hzero, Nat.zero_add]
    simp [hge]
  · rw [Function.update_of_ne hi, hs.current_other hi]
    exact h.completion i

theorem waitedFor (hs : Moved P s s' t th) (h : Joined P s) {i : ℕ} (hi : i < waited P s) :
    (s'.threads (s.round, i)).pc = .returned := by
  rw [hs.current_other (Nat.ne_of_lt (Nat.lt_of_lt_of_le hi (hs.current h).2.2))]
  exact h.waitedFor i hi

theorem joined (hs : Moved P s s' t th) (h : Joined P s) : Joined P s' where
  thread := hs.thread h
  fresh _ := hs.fresh h
  past _ _ hj hi := hs.past h (hs.round ▸ hj) hi
  present i := by
    rw [hs.round, hs.created_eq]
    exact hs.present_iff h i
  future _ _ hji := hs.future h (hs.round ▸ hji)
  completion i := by
    rw [hs.round, hs.waited_eq]
    exact hs.completion_eq h i
  waitedFor i hi := by
    rw [hs.waited_eq] at hi
    rw [hs.round]
    exact hs.waitedFor h hi
  bounds := by
    rw [hs.created_eq, hs.waited_eq]
    exact h.bounds

end Moved

/-- Under a lock it leaves the lock and the counter as they should be. -/
structure ThreadStep (P : Params) (s s' : State) (t : Tid) (th : Thread) : Prop extends
    Moved P s s' t th where
  lock : ∀ u, (s'.threads u).pc.Critical ↔ s'.locks.holder P.type = some u
  loaded : ∀ u v, (s'.threads u).pc = .store v → v = s'.result
  result : (s'.result = s.result ∧ th.increments = (s.threads t).increments) ∨
    (s'.result = inc32 s.result ∧ th.increments = (s.threads t).increments + 1)

/-- The counter and the increments of the running thread grow together. -/
theorem ThreadStep.result_eq {s s' : State} {t : Tid} {th : Thread} (hs : ThreadStep P s s' t th)
    (h : Inv P s) (hc : s.phase.Counting) :
    s'.result =
      (∑ i ∈ Finset.range (created P s), (s'.threads (s.round, i)).increments) % 2 ^ 32 := by
  obtain ⟨ht, hlt, -⟩ := hs.current h.toJoined
  have hsum := SumUpdate.sum_step (f := fun i => (s.threads (s.round, i)).increments)
    (g := fun i => (s'.threads (s.round, i)).increments) (Finset.mem_range.mpr hlt)
    fun k _ hk => by rw [hs.current_other hk]
  rw [hs.current_self h.toJoined, ← ht] at hsum
  have hres := h.result hc
  rcases hs.result with ⟨hr, hinc⟩ | ⟨hr, hinc⟩
  · rw [hr, hres]
    congr 1
    omega
  · rw [hr, hres, inc32_mod]
    congr 1
    omega

theorem inv_threadFunc {s s' : State} {t : Tid} {th : Thread} (h : Inv P s)
    (hs : ThreadStep P s s' t th) : Inv P s' where
  toJoined := hs.joined h.toJoined
  lock := hs.lock
  loaded := hs.loaded
  rounds := hs.round ▸ h.rounds
  more := by
    rw [hs.phase, hs.round]
    exact h.more
  finished := by
    rw [hs.phase, hs.round]
    exact h.finished
  result hc := by
    rw [hs.phase] at hc
    rw [hs.round, hs.created_eq]
    exact hs.result_eq h hc
  printed := by
    rw [hs.printed, hs.round]
    exact h.printed

/-- A thread that stays on its side of the lock leaves the lock as it should be. -/
theorem Inv.lock_update {s : State} (h : Inv P s) {t : Tid} {th : Thread}
    (hcrit : th.pc.Critical ↔ (s.threads t).pc.Critical) (u : Tid) :
    (Function.update s.threads t th u).pc.Critical ↔ s.locks.holder P.type = some u := by
  by_cases hu : u = t
  · rw [hu, Function.update_self, hcrit]
    exact h.lock t
  · rw [Function.update_of_ne hu]
    exact h.lock u

/-- The values the other threads are about to store are those of the counter, which stays. -/
theorem Inv.loaded_update {s : State} (h : Inv P s) {t : Tid} {th : Thread}
    (hth : ∀ v, th.pc = .store v → v = s.result) (u : Tid) (v : ℕ)
    (hu : (Function.update s.threads t th u).pc = .store v) : v = s.result := by
  by_cases hut : u = t
  · rw [hut, Function.update_self] at hu
    exact hth v hu
  · rw [Function.update_of_ne hut] at hu
    exact h.loaded u v hu

/-- While `t` is between lock and unlock, no other thread is. -/
theorem Inv.not_critical {s : State} (h : Inv P s) {t u : Tid} (ht : (s.threads t).pc.Critical)
    (hut : u ≠ t) : ¬(s.threads u).pc.Critical :=
  fun hu => hut (h.exclusive hu ht)

theorem threadStep_lock (hty : P.type = .spinlock ∨ P.type = .nutex) {s : State} (h : Inv P s)
    {t : Tid} (hpc : (s.threads t).pc = .loop) (hlt : (s.threads t).i < P.iterations)
    (hfree : s.locks.holder P.type = none) :
    ThreadStep P s ({ s with locks := s.locks.set (some t) P.type }.setThread t
      { s.threads t with pc := .load }) t { s.threads t with pc := .load } := by
  have hnone : ∀ u, ¬(s.threads u).pc.Critical := fun u => by simp [h.lock u, hfree]
  refine ⟨⟨by simp [hpc], rfl, rfl, rfl, rfl, by simp, Thread.ok_critical True.intro hlt, by simp⟩,
    fun u => ?_, h.loaded_update (by simp), Or.inl ⟨rfl, by simp [Thread.increments, hpc]⟩⟩
  rw [setThread_locks, holder_set _ _ hty]
  by_cases hu : u = t
  · simp [hu, Pc.Critical]
  · simp [Function.update_of_ne hu, hnone u, Ne.symm hu]

theorem threadStep_return {s : State} (h : Inv P s) {t : Tid} (hpc : (s.threads t).pc = .loop)
    (hend : ¬(s.threads t).i < P.iterations) :
    ThreadStep P s ({ s with
      completion := Function.update s.completion t.2 (s.completion t.2 + 1) }.setThread t
        { s.threads t with pc := .returned }) t { s.threads t with pc := .returned } :=
  ⟨⟨by simp [hpc], rfl, rfl, rfl, rfl, by simp,
      ⟨(h.thread t).le, False.elim, fun _ => Nat.le_antisymm (h.thread t).le (Nat.not_lt.mp hend)⟩,
      by simp⟩,
    h.lock_update (by simp [hpc, Pc.Critical]), h.loaded_update (by simp),
    Or.inl ⟨rfl, by simp [Thread.increments, hpc]⟩⟩

theorem threadStep_load {s : State} (h : Inv P s) {t : Tid} (hpc : (s.threads t).pc = .load) :
    ThreadStep P s (s.setThread t { s.threads t with pc := .store s.result }) t
      { s.threads t with pc := .store s.result } := by
  have hcrit : (s.threads t).pc.Critical := by simp [hpc, Pc.Critical]
  exact ⟨⟨by simp [hpc], rfl, rfl, rfl, rfl, by simp,
      Thread.ok_critical True.intro ((h.thread t).critical hcrit), by simp⟩,
    h.lock_update (by simp [hpc, Pc.Critical]),
    h.loaded_update fun v hv => (Pc.store.inj hv).symm,
    Or.inl ⟨rfl, by simp [Thread.increments, hpc]⟩⟩

/-- The value stored is that of the counter plus one, and no other thread is about to store. -/
theorem threadStep_store {s : State} (h : Inv P s) {t : Tid} {v : ℕ}
    (hpc : (s.threads t).pc = .store v) :
    ThreadStep P s ({ s with result := inc32 v }.setThread t { s.threads t with pc := .unlock }) t
      { s.threads t with pc := .unlock } := by
  have hcrit : (s.threads t).pc.Critical := by simp [hpc, Pc.Critical]
  refine ⟨⟨by simp [hpc], rfl, rfl, rfl, rfl, by simp,
      Thread.ok_critical True.intro ((h.thread t).critical hcrit), by simp⟩,
    h.lock_update (by simp [hpc, Pc.Critical]), fun u w hu => ?_,
    Or.inr ⟨by simp [h.loaded t v hpc], by simp [Thread.increments, hpc]⟩⟩
  by_cases hut : u = t
  · simp [hut] at hu
  · have hu' : (s.threads u).pc = .store w := by simpa [Function.update_of_ne hut] using hu
    exact absurd (by simp [hu', Pc.Critical]) (h.not_critical hcrit hut)

theorem threadStep_unlock (hty : P.type = .spinlock ∨ P.type = .nutex) {s : State} (h : Inv P s)
    {t : Tid} (hpc : (s.threads t).pc = .unlock) :
    ThreadStep P s ({ s with locks := s.locks.set none P.type }.setThread t
      ⟨(s.threads t).i + 1, .loop⟩) t ⟨(s.threads t).i + 1, .loop⟩ := by
  have hcrit : (s.threads t).pc.Critical := by simp [hpc, Pc.Critical]
  refine ⟨⟨by simp [hpc], rfl, rfl, rfl, rfl, by simp,
      Thread.ok_loop ((h.thread t).critical hcrit), by simp⟩, fun u => ?_,
    h.loaded_update (by simp), Or.inl ⟨rfl, by simp [Thread.increments, hpc]⟩⟩
  rw [setThread_locks, holder_set _ _ hty]
  by_cases hu : u = t
  · simp [hu, Pc.Critical]
  · simp [Function.update_of_ne hu, h.not_critical hcrit hu]

/-- Under a lock, every step of a thread is one of those. -/
theorem threadFunc_cases (hty : P.type = .spinlock ∨ P.type = .nutex) {s s' : State} (h : Inv P s)
    {t : Tid} (hstep : threadFunc P s t = some s') : ∃ th, ThreadStep P s s' t th := by
  unfold threadFunc at hstep
  cases hpc : (s.threads t).pc with
  | absent => simp [hpc] at hstep
  | returned => simp [hpc] at hstep
  | loop =>
    simp only [hpc] at hstep
    split_ifs at hstep with hlt hfree
    · obtain rfl := Option.some.inj hstep
      exact ⟨_, threadStep_lock hty h hpc hlt hfree⟩
    · obtain rfl := Option.some.inj hstep
      exact ⟨_, threadStep_return h hpc hlt⟩
  | load =>
    simp only [hpc] at hstep
    obtain rfl := Option.some.inj hstep
    exact ⟨_, threadStep_load h hpc⟩
  | store v =>
    simp only [hpc] at hstep
    obtain rfl := Option.some.inj hstep
    exact ⟨_, threadStep_store h hpc⟩
  | unlock =>
    simp only [hpc] at hstep
    obtain rfl := Option.some.inj hstep
    exact ⟨_, threadStep_unlock hty h hpc⟩

/-! ## A step of `concurrency_control_init` -/

/-- What a step of `concurrency_control_init` does. -/
inductive InitStep (P : Params) (s : State) : State → Prop
  | reset (hph : s.phase = .reset) (hmore : s.round < P.testCnt) :
    InitStep P s { s with result := 0, phase := .create 0 }
  | finish (hph : s.phase = .reset) (hend : ¬s.round < P.testCnt) :
    InitStep P s { s with phase := .done }
  | create (i : ℕ) (hph : s.phase = .create i) (hi : i < P.threadCnt) :
    InitStep P s { s.setThread (s.round, i) ⟨0, .loop⟩ with phase := .create (i + 1) }
  | created (i : ℕ) (hph : s.phase = .create i) (hi : ¬i < P.threadCnt) :
    InitStep P s { s with phase := .wait 0 }
  | wait (i : ℕ) (hph : s.phase = .wait i) (hi : i < P.threadCnt) (hpos : 0 < s.completion i) :
    InitStep P s { s with completion := Function.update s.completion i (s.completion i - 1)
                          phase := .wait (i + 1) }
  | waited (i : ℕ) (hph : s.phase = .wait i) (hi : ¬i < P.threadCnt) :
    InitStep P s { s with phase := .print }
  | print (hph : s.phase = .print) :
    InitStep P s { s with
      printed := s.printed ++ [s.result], round := s.round + 1, phase := .reset }

theorem concurrencyControlInit_cases {s s' : State}
    (hstep : concurrencyControlInit P s = some s') : InitStep P s s' := by
  unfold concurrencyControlInit at hstep
  cases hph : s.phase with
  | reset =>
    simp only [hph] at hstep
    split_ifs at hstep with hmore <;> obtain rfl := Option.some.inj hstep
    · exact .reset hph hmore
    · exact .finish hph hmore
  | create i =>
    simp only [hph] at hstep
    split_ifs at hstep with hi <;> obtain rfl := Option.some.inj hstep
    · exact .create i hph hi
    · exact .created i hph hi
  | wait i =>
    simp only [hph] at hstep
    split_ifs at hstep with hi hpos <;> obtain rfl := Option.some.inj hstep
    · exact .wait i hph hi hpos
    · exact .waited i hph hi
  | print =>
    simp only [hph] at hstep
    obtain rfl := Option.some.inj hstep
    exact .print hph
  | done => simp [hph] at hstep

section

variable {s s' : State} {i : ℕ}

/-- A step that leaves the threads, and counts them as before. -/
theorem Joined.frame (h : Joined P s) (hthreads : s'.threads = s.threads)
    (hround : s'.round = s.round) (hcompletion : s'.completion = s.completion)
    (hcreated : created P s' = created P s) (hwaited : waited P s' = waited P s) :
    Joined P s' := by
  obtain ⟨hthread, hfresh, hpast, hpresent, hfuture, hcomp, hfor, hbounds⟩ := h
  constructor <;> simpa only [hthreads, hround, hcompletion, hcreated, hwaited]

theorem Joined.eq_of_create (h : Joined P s) (hph : s.phase = .create i)
    (hi : ¬i < P.threadCnt) : i = P.threadCnt := by
  have hle := h.bounds.1
  simp only [created, hph] at hle
  omega

theorem Joined.eq_of_wait (h : Joined P s) (hph : s.phase = .wait i) (hi : ¬i < P.threadCnt) :
    i = P.threadCnt := by
  have hle := h.bounds.2
  simp only [waited, hph] at hle
  omega

theorem Joined.absent_of_create (h : Joined P s) (hph : s.phase = .create i) :
    (s.threads (s.round, i)).pc = .absent :=
  (h.present i).mpr (by simp [created, hph])

/-- The threads but the new one. -/
theorem update_current_of_ne (s : State) (th : Thread) {i k : ℕ} (hk : k ≠ i) :
    Function.update s.threads (s.round, i) th (s.round, k) = s.threads (s.round, k) :=
  Function.update_of_ne (fun heq => hk (Prod.mk.inj heq).2) _ _

theorem joined_create (h : Joined P s) (hph : s.phase = .create i) (hi : i < P.threadCnt) :
    Joined P { s.setThread (s.round, i) ⟨0, .loop⟩ with phase := .create (i + 1) } := by
  have hcount : created P s = i := by simp [created, hph]
  have hnone : waited P s = 0 := by simp [waited, hph]
  have hother : ∀ {u}, u ≠ (s.round, i) →
      Function.update s.threads (s.round, i) ⟨0, .loop⟩ u = s.threads u := fun hu =>
    Function.update_of_ne hu _ _
  refine ⟨fun t => ?_, fun t hpc => ?_, fun j k hj hk => ?_, fun k => ?_, fun j k hjk => ?_,
    fun k => ?_, fun k hk => ?_, ⟨hi, Nat.zero_le _⟩⟩
  · by_cases ht : t = (s.round, i)
    · simp only [setThread_threads, ht, Function.update_self]
      exact Thread.ok_loop (Nat.zero_le _)
    · simpa [hother ht] using h.thread t
  · by_cases ht : t = (s.round, i)
    · simp [ht]
    · simpa [hother ht] using h.fresh t (by simpa [hother ht] using hpc)
  · have hne : (j, k) ≠ (s.round, i) := fun heq => Nat.ne_of_lt hj (Prod.mk.inj heq).1
    simpa [hother hne] using h.past j k hj hk
  · by_cases hk : k = i
    · simp [hk, created]
    · have hpres := h.present k
      rw [hcount] at hpres
      simp only [setThread_threads, setThread_round, update_current_of_ne s _ hk, hpres, created]
      omega
  · have hne : (j, k) ≠ (s.round, i) := by
      rintro heq
      obtain ⟨rfl, rfl⟩ := Prod.mk.inj heq
      simp only [setThread_round] at hjk
      omega
    simpa [hother hne] using h.future j k hjk
  · have hcomp := h.completion k
    by_cases hk : k = i
    · simp [hk, h.absent_of_create hph] at hcomp
      simp [hk, hcomp]
    · rw [hnone] at hcomp
      simpa [update_current_of_ne s _ hk, waited] using hcomp
  · simp [waited] at hk

/-- A wait takes back what the completion has counted. -/
theorem joined_wait (h : Joined P s) (hph : s.phase = .wait i) (hi : i < P.threadCnt)
    (hpos : 0 < s.completion i) :
    Joined P { s with completion := Function.update s.completion i (s.completion i - 1)
                      phase := .wait (i + 1) } := by
  have hnow : waited P s = i := by simp [waited, hph]
  have hcomp := h.completion i
  have hret : (s.threads (s.round, i)).pc = .returned := by
    by_contra hne
    rw [if_neg fun hc => hne hc.2] at hcomp
    omega
  rw [hnow, if_pos ⟨Nat.le_refl i, hret⟩] at hcomp
  refine { h with
    present := fun k => by simpa [created, hph] using h.present k
    completion := fun k => ?_
    waitedFor := fun k hk => ?_
    bounds := ⟨Nat.le_refl _, hi⟩ }
  · have hk := h.completion k
    rw [hnow] at hk
    by_cases hki : k = i
    · simp [hki, waited, hcomp]
    · have hiff : i + 1 ≤ k ↔ i ≤ k := by omega
      simpa [Function.update_of_ne hki, waited, hiff] using hk
  · have hk' : k < i + 1 := hk
    by_cases hki : k = i
    · exact hki ▸ hret
    · exact h.waitedFor k (by omega)

theorem joined_print (h : Joined P s) (hph : s.phase = .print) :
    Joined P { s with
      printed := s.printed ++ [s.result], round := s.round + 1, phase := .reset } := by
  have hnow : waited P s = P.threadCnt := by simp [waited, hph]
  have hfuture : ∀ k, (s.threads (s.round + 1, k)).pc = .absent := fun k =>
    h.future _ k (Or.inl (Nat.lt_succ_self _))
  refine { h with
    past := fun j i hj hi => ?_
    present := fun k => iff_of_true (hfuture k) (Nat.zero_le k)
    future := fun j i hji => h.future j i (hji.imp Nat.lt_of_succ_lt id)
    completion := fun k => ?_
    waitedFor := fun k hk => by simp [waited] at hk
    bounds := ⟨Nat.zero_le _, Nat.zero_le _⟩ }
  · rcases Nat.lt_succ_iff_lt_or_eq.mp hj with hlt | rfl
    · exact h.past j i hlt hi
    · exact h.waitedFor i (by omega)
  · -- no thread beyond the last one has ever run
    have hno : ¬ (waited P s ≤ k ∧ (s.threads (s.round, k)).pc = .returned) := by
      rintro ⟨hk, hret⟩
      rw [h.future s.round k (Or.inr (hnow ▸ hk))] at hret
      exact absurd hret (by simp)
    have hk := h.completion k
    rw [if_neg hno] at hk
    simp [hfuture k, hk]

theorem joined_initStep (h : Joined P s) (hs : InitStep P s s') : Joined P s' := by
  cases hs with
  | reset hph => exact h.frame rfl rfl rfl (by simp [created, hph]) (by simp [waited, hph])
  | finish hph => exact h.frame rfl rfl rfl (by simp [created, hph]) (by simp [waited, hph])
  | create i hph hi => exact joined_create h hph hi
  | created i hph hi =>
    exact h.frame rfl rfl rfl (by simp [created, hph, h.eq_of_create hph hi])
      (by simp [waited, hph])
  | wait i hph hi hpos => exact joined_wait h hph hi hpos
  | waited i hph hi =>
    exact h.frame rfl rfl rfl (by simp [created, hph]) (by simp [waited, hph, h.eq_of_wait hph hi])
  | print hph => exact joined_print h hph

/-- No thread is between lock and unlock in a state without running threads. -/
theorem Joined.not_store (h : Joined P s) (hzero : created P s = 0) (t : Tid) (v : ℕ) :
    (s.threads t).pc ≠ .store v := by
  intro hpc
  obtain ⟨-, hlt, -⟩ := h.current (t := t) (by simp [hpc]) (by simp [hpc])
  omega

/-- A new thread is not between lock and unlock, and has made no increment. -/
theorem inv_create (h : Inv P s) (hph : s.phase = .create i) (hi : i < P.threadCnt) :
    Inv P { s.setThread (s.round, i) ⟨0, .loop⟩ with phase := .create (i + 1) } := by
  have hcounting : s.phase.Counting := by simp [hph, Phase.Counting]
  refine { h with
    toJoined := joined_create h.toJoined hph hi
    lock := fun t => ?_
    loaded := fun t v hpc => ?_
    more := fun _ => h.more hcounting
    finished := fun hdone => by simp at hdone
    result := fun _ => ?_ }
  · by_cases ht : t = (s.round, i)
    · have hnot := (h.lock t).not.mp (by simp [ht, h.absent_of_create hph, Pc.Critical])
      simpa [ht, Pc.Critical] using hnot
    · simpa [Function.update_of_ne ht] using h.lock t
  · by_cases ht : t = (s.round, i)
    · simp [ht] at hpc
    · exact h.loaded t v (by simpa [Function.update_of_ne ht] using hpc)
  · have hres := h.result hcounting
    simp only [created, hph] at hres
    have hsum : ∑ k ∈ Finset.range i, (Function.update s.threads (s.round, i) ⟨0, .loop⟩
        (s.round, k)).increments = ∑ k ∈ Finset.range i, (s.threads (s.round, k)).increments :=
      Finset.sum_congr rfl fun k hk => by
        rw [update_current_of_ne s _ (Nat.ne_of_lt (Finset.mem_range.mp hk))]
    show s.result = (∑ k ∈ Finset.range (i + 1), (Function.update s.threads (s.round, i) ⟨0, .loop⟩
      (s.round, k)).increments) % 2 ^ 32
    rw [Finset.sum_range_succ, hsum, Function.update_self, hres]
    rfl

/-- When all threads have returned, the counter has all the increments of the round. -/
theorem Inv.result_print (h : Inv P s) (hph : s.phase = .print) :
    s.result = P.threadCnt * P.iterations % 2 ^ 32 := by
  have hsum : ∑ i ∈ Finset.range P.threadCnt, (s.threads (s.round, i)).increments =
      ∑ _i ∈ Finset.range P.threadCnt, P.iterations := by
    refine Finset.sum_congr rfl fun i hi => ?_
    have hret := h.waitedFor i (by simpa [waited, hph] using hi)
    simp [Thread.increments, hret, (h.thread (s.round, i)).returned hret]
  have hres := h.result (by simp [hph, Phase.Counting])
  have hcount : created P s = P.threadCnt := by simp [created, hph]
  rwa [hcount, hsum, Finset.sum_const, Finset.card_range, Nat.nsmul_eq_mul] at hres

theorem inv_initStep (h : Inv P s) (hs : InitStep P s s') : Inv P s' := by
  have hjoined := joined_initStep h.toJoined hs
  cases hs with
  | reset hph hmore =>
    exact { h with
      toJoined := hjoined
      loaded := fun t v hpc => absurd hpc (h.not_store (by simp [created, hph]) t v)
      more := fun _ => hmore
      finished := fun hdone => by simp at hdone
      result := fun _ => by simp [created] }
  | finish hph hend =>
    exact { h with
      toJoined := hjoined
      more := False.elim
      finished := fun _ => Nat.le_antisymm h.rounds (Nat.not_lt.mp hend)
      result := False.elim }
  | create i hph hi => exact inv_create h hph hi
  | created i hph hi =>
    have hres := h.result (by simp [hph, Phase.Counting])
    simp only [created, hph, h.eq_of_create hph hi] at hres
    exact { h with
      toJoined := hjoined
      more := fun _ => h.more (by simp [hph, Phase.Counting])
      finished := fun hdone => by simp at hdone
      result := fun _ => hres }
  | wait i hph hi hpos =>
    have hres := h.result (by simp [hph, Phase.Counting])
    simp only [created, hph] at hres
    exact { h with
      toJoined := hjoined
      more := fun _ => h.more (by simp [hph, Phase.Counting])
      finished := fun hdone => by simp at hdone
      result := fun _ => hres }
  | waited i hph hi =>
    have hres := h.result (by simp [hph, Phase.Counting])
    simp only [created, hph] at hres
    exact { h with
      toJoined := hjoined
      more := fun _ => h.more (by simp [hph, Phase.Counting])
      finished := fun hdone => by simp at hdone
      result := fun _ => hres }
  | print hph =>
    exact { h with
      toJoined := hjoined
      rounds := h.more (by simp [hph, Phase.Counting])
      more := False.elim
      finished := fun hdone => by simp at hdone
      result := False.elim
      printed := by rw [h.printed, h.result_print hph, List.replicate_succ'] }

end

theorem inv_step (hty : P.type = .spinlock ∨ P.type = .nutex) {s s' : State} {a : Action}
    (h : Inv P s) (hstep : step P s a = some s') : Inv P s' := by
  cases a with
  | init => exact inv_initStep h (concurrencyControlInit_cases hstep)
  | thread t =>
    obtain ⟨th, hth⟩ := threadFunc_cases hty h hstep
    exact inv_threadFunc h hth

/-! ## Progress -/

variable (P)

/-- Steps a thread has still to take. -/
def Thread.rank (th : Thread) : ℕ :=
  match th.pc with
  | .absent => 0
  | .loop => 4 * (P.iterations - th.i) + 1
  | .load => 4 * (P.iterations - th.i)
  | .store _ => 4 * (P.iterations - th.i) - 1
  | .unlock => 4 * (P.iterations - th.i) - 2
  | .returned => 0

/-- Steps of one round : each thread is created, runs and is waited for. -/
def roundRank : ℕ :=
  P.threadCnt * (4 * P.iterations + 2) + P.threadCnt + 4

/-- Steps of a round that are not yet taken, those of threads created apart. -/
def phaseRank : Phase → ℕ
  | .reset => 0
  | .create i => (P.threadCnt - i) * (4 * P.iterations + 2) + P.threadCnt + 3
  | .wait i => P.threadCnt - i + 2
  | .print => 1
  | .done => 0

/-- Rounds that have not begun. -/
def roundsLeft (s : State) : ℕ :=
  match s.phase with
  | .reset => P.testCnt - s.round
  | .done => 0
  | _ => P.testCnt - s.round - 1

/-- Steps that are left of the whole run. -/
def rank (s : State) : ℕ :=
  roundsLeft P s * roundRank P + phaseRank P s.phase +
    ∑ i ∈ Finset.range (created P s), (s.threads (s.round, i)).rank P +
    if s.phase = .done then 0 else 1

variable {P}

/-- A step of a thread is one step less for it. -/
theorem threadFunc_rank {s s' : State} {t : Tid} (hok : (s.threads t).Ok P)
    (hstep : threadFunc P s t = some s') :
    (s'.threads t).rank P + 1 = (s.threads t).rank P := by
  obtain ⟨hle, hcrit, -⟩ := hok
  unfold threadFunc at hstep
  cases hpc : (s.threads t).pc <;> simp only [hpc, Pc.Critical, forall_const] at hstep hcrit
  case absent | returned => exact absurd hstep (by simp)
  case loop =>
    split_ifs at hstep with hlt
    · obtain rfl := Option.some.inj hstep
      simp [Thread.rank, hpc]
    · obtain rfl := Option.some.inj hstep
      simp [Thread.rank, hpc]
      omega
  all_goals
    obtain rfl := Option.some.inj hstep
    simp [Thread.rank, hpc]
    omega

theorem initStep_rank {s s' : State} (h : Inv P s) (hs : InitStep P s s') :
    rank P s' + 1 = rank P s := by
  cases hs with
  | reset hph hmore =>
    obtain ⟨n, hn⟩ : ∃ n, P.testCnt - s.round = n + 1 := ⟨P.testCnt - s.round - 1, by omega⟩
    simp only [rank, roundsLeft, hph, phaseRank, created, Finset.range_zero, Finset.sum_empty,
      reduceCtorEq, if_false, hn, Nat.add_sub_cancel, Nat.add_mul, Nat.one_mul, Nat.sub_zero]
    rw [roundRank]
    omega
  | finish hph hend =>
    have hrounds : P.testCnt - s.round = 0 := by omega
    simp [rank, roundsLeft, hph, phaseRank, created, hrounds]
  | create i hph hi =>
    obtain ⟨n, hn, hn'⟩ : ∃ n, P.threadCnt - i = n + 1 ∧ P.threadCnt - (i + 1) = n :=
      ⟨P.threadCnt - (i + 1), by omega, rfl⟩
    have hsum : ∑ k ∈ Finset.range i, (Function.update s.threads (s.round, i) ⟨0, .loop⟩
        (s.round, k)).rank P = ∑ k ∈ Finset.range i, (s.threads (s.round, k)).rank P :=
      Finset.sum_congr rfl fun k hk => by
        rw [Function.update_of_ne fun heq =>
          Nat.ne_of_lt (Finset.mem_range.mp hk) (Prod.mk.inj heq).2]
    have hnew : Thread.rank P ⟨0, .loop⟩ = 4 * P.iterations + 1 := rfl
    simp only [rank, roundsLeft, hph, phaseRank, created, setThread_threads, setThread_round,
      Finset.sum_range_succ, Function.update_self, hsum, hnew, hn, hn', Nat.add_mul, Nat.one_mul,
      reduceCtorEq, if_false]
    omega
  | created i hph hi =>
    have hall : i = P.threadCnt := h.eq_of_create hph hi
    simp [rank, roundsLeft, hph, phaseRank, created, hall]
    omega
  | wait i hph hi hpos =>
    simp only [rank, roundsLeft, hph, phaseRank, created, reduceCtorEq, if_false]
    omega
  | waited i hph hi =>
    have hleft : P.threadCnt - i = 0 := by omega
    simp only [rank, roundsLeft, hph, phaseRank, created, hleft, reduceCtorEq, if_false]
    omega
  | print hph =>
    -- the threads of the round have no step left
    have hsum : ∑ k ∈ Finset.range P.threadCnt, (s.threads (s.round, k)).rank P = 0 :=
      Finset.sum_eq_zero fun k hk => by
        have hret := h.waitedFor k (by simpa [waited, hph] using hk)
        simp [Thread.rank, hret]
    simp [rank, roundsLeft, hph, phaseRank, created, hsum, Nat.sub_sub]

/-- Every step is one step less to the end. -/
theorem rank_step (hty : P.type = .spinlock ∨ P.type = .nutex) {s s' : State} {a : Action}
    (h : Inv P s) (hstep : step P s a = some s') : rank P s' + 1 = rank P s := by
  cases a with
  | init => exact initStep_rank h (concurrencyControlInit_cases hstep)
  | thread t =>
    obtain ⟨th, hth⟩ := threadFunc_cases hty h hstep
    obtain ⟨hround, hlt, -⟩ := h.current hth.running.1 hth.running.2
    have hone := threadFunc_rank (h.thread t) hstep
    have hsum := SumUpdate.sum_step (f := fun i => (s.threads (s.round, i)).rank P)
      (g := fun i => (s'.threads (s.round, i)).rank P) (Finset.mem_range.mpr hlt)
      fun k _ hk => by
        have hne : (s.round, k) ≠ t := fun heq => hk (congrArg Prod.snd heq)
        rw [hth.threads, Function.update_of_ne hne]
    have ht : (s.round, t.2) = t := by rw [← hround]
    rw [ht] at hsum
    have hcreated : created P s' = created P s := by rw [created, created, hth.phase]
    have hleft : roundsLeft P s' = roundsLeft P s := by
      rw [roundsLeft, roundsLeft, hth.phase, hth.round]
    simp only [rank, hcreated, hleft, hth.phase, hth.round]
    omega

theorem exists_step_of_critical {s : State} {t : Tid} (ht : (s.threads t).pc.Critical) :
    ∃ a s', step P s a = some s' := by
  refine ⟨.thread t, ?_⟩
  cases hpc : (s.threads t).pc <;> rw [hpc] at ht
  case absent | loop | returned => exact ht.elim
  all_goals exact ⟨_, by rw [step, threadFunc]; simp only [hpc]; rfl⟩

/-- A running thread runs, or waits for the lock and so for one that does. -/
theorem Inv.exists_step_of_running {s : State} (h : Inv P s) {t : Tid}
    (ha : (s.threads t).pc ≠ .absent) (hr : (s.threads t).pc ≠ .returned) :
    ∃ a s', step P s a = some s' := by
  by_cases hcrit : (s.threads t).pc.Critical
  · exact exists_step_of_critical hcrit
  · have hpc : (s.threads t).pc = .loop := by
      cases hpc : (s.threads t).pc <;> simp_all [Pc.Critical]
    by_cases hlt : (s.threads t).i < P.iterations
    · cases hheld : s.locks.holder P.type with
      | none =>
        exact ⟨.thread t, _, by rw [step, threadFunc]; simp only [hpc, hlt, hheld, if_true]; rfl⟩
      | some u => exact exists_step_of_critical ((h.lock u).mpr hheld)
    · exact ⟨.thread t, _, by rw [step, threadFunc]; simp only [hpc, hlt, if_false]; rfl⟩

/-- Until the end some step can be taken. -/
theorem exists_step {s : State} (h : Inv P s) (hdone : s.phase ≠ .done) :
    ∃ a s', step P s a = some s' := by
  cases hph : s.phase with
  | reset =>
    refine ⟨.init, ?_⟩
    simp only [step, concurrencyControlInit, hph]
    split_ifs <;> exact ⟨_, rfl⟩
  | create i =>
    refine ⟨.init, ?_⟩
    simp only [step, concurrencyControlInit, hph]
    split_ifs <;> exact ⟨_, rfl⟩
  | print =>
    refine ⟨.init, ?_⟩
    simp only [step, concurrencyControlInit, hph]
    exact ⟨_, rfl⟩
  | done => exact absurd hph hdone
  | wait i =>
    by_cases hi : i < P.threadCnt
    · by_cases hpos : 0 < s.completion i
      · refine ⟨.init, ?_⟩
        simp only [step, concurrencyControlInit, hph, hi, hpos, if_true]
        exact ⟨_, rfl⟩
      · -- the thread waited for has been created and has not returned
        refine h.exists_step_of_running (t := (s.round, i)) ?_ ?_
        · rw [ne_eq, h.present i]
          simp [created, hph, hi]
        · intro hret
          have hcomp := h.completion i
          rw [if_pos ⟨by simp [waited, hph], hret⟩] at hcomp
          omega
    · refine ⟨.init, ?_⟩
      simp only [step, concurrencyControlInit, hph, hi, if_false]
      exact ⟨_, rfl⟩

/-! ## Runs -/

/-- The length of a run is the number of steps it is nearer to the end. -/
theorem length_add_rank (hty : P.type = .spinlock ∨ P.type = .nutex) {as : List Action} :
    ∀ {s s' : State}, Inv P s → Transition.run (step P) s as = some s' →
      as.length + rank P s' = rank P s := by
  induction as with
  | nil =>
    intro s s' _ hrun
    obtain rfl := Option.some.inj hrun
    exact Nat.zero_add _
  | cons a as ih =>
    intro s s' h hrun
    obtain ⟨u, hstep, hrun⟩ := Option.bind_eq_some_iff.mp hrun
    have hrest := ih (inv_step hty h hstep) hrun
    have hone := rank_step hty h hstep
    rw [List.length_cons]
    omega

variable (P)

/-- For every number of threads, iterations and rounds, under either lock, in every state
any interleaving reaches : one thread at most is between lock and unlock; every value
printed so far is the product of threads and iterations modulo `2 ^ 32`; when a round begins
no thread is running; and the run is no longer than `testCnt` rounds, goes on until all of
them are printed, and ends there. -/
theorem counter_exact (hty : P.type = .spinlock ∨ P.type = .nutex) (result : ℕ)
    (as : List Action) (s : State) (hrun : Transition.run (step P) (init result) as = some s) :
    (∀ t u, (s.threads t).pc.Critical → (s.threads u).pc.Critical → t = u) ∧
      (∀ v ∈ s.printed, v = P.threadCnt * P.iterations % 2 ^ 32) ∧
      (s.phase = .reset → ∀ t, (s.threads t).pc = .absent ∨ (s.threads t).pc = .returned) ∧
      as.length ≤ P.testCnt * roundRank P + 1 ∧
      (s.phase ≠ .done → ∃ a s', step P s a = some s') ∧
      (s.phase = .done → s.printed.length = P.testCnt) := by
  have h : Inv P s :=
    Transition.inv_run (fun _ _ _ => inv_step hty) (inv_init hty result) hrun
  have hlen := length_add_rank hty (inv_init hty result) hrun
  have hrank : rank P (init result) = P.testCnt * roundRank P + 1 := by
    simp [rank, roundsLeft, init, phaseRank, created]
  refine ⟨fun t u => h.exclusive, fun v hv => ?_, fun hph t => ?_, by omega, exists_step h,
    fun hdone => ?_⟩
  · rw [h.printed] at hv
    exact List.eq_of_mem_replicate hv
  · by_contra hne
    rw [not_or] at hne
    obtain ⟨-, hlt, -⟩ := h.current hne.1 hne.2
    simp [created, hph] at hlt
  · rw [h.printed, List.length_replicate, h.finished hdone]

/-- Two threads with two increments each, in two rounds : the first thread runs before the
second one is created, they take the mutex in turn, and the first is waited for while the
second still runs. -/
theorem counter_exact_two :
    let thread (t : Tid) (n : ℕ) : List Action := List.replicate n (.thread t)
    let round (j : ℕ) : List Action :=
      [.init, .init] ++ thread (j, 0) 2 ++ [.init, .init] ++ thread (j, 0) 2 ++ thread (j, 1) 4 ++
        thread (j, 0) 5 ++ [.init] ++ thread (j, 1) 5 ++ [.init, .init, .init]
    ∃ s, Transition.run (step ⟨2, 2, 2, .nutex⟩) (init 7) (round 0 ++ round 1 ++ [.init]) = some s ∧
      s.phase = .done ∧ s.printed = [4, 4] ∧ ∀ v ∈ s.printed, v = 2 * 2 % 2 ^ 32 := by
  intro thread round
  obtain ⟨s, hs, hend⟩ : ∃ s,
      Transition.run (step ⟨2, 2, 2, .nutex⟩) (init 7) (round 0 ++ round 1 ++ [.init]) = some s ∧
        (s.phase, s.printed) = (.done, [4, 4]) := Option.map_eq_some_iff.mp (by decide)
  obtain ⟨hphase, hprinted⟩ := Prod.mk.inj hend
  exact ⟨s, hs, hphase, hprinted, (counter_exact ⟨2, 2, 2, .nutex⟩ (Or.inr rfl) 7 _ s hs).2.1⟩

end ConcurrencyControl

end LinuxDriverKb
