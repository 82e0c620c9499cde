import LinuxDriverKb.KeyDevice
import LinuxDriverKb.Lib.Transition

/-!
# The read of a key device

`char_dev_read` of `block_io.c`, `nonblock_io.c` and `fasync_io.c` returns what `copy_to_user`
returns, the number of bytes that it has not copied, and does not look at the length of the
buffer; it has cleared `key_value` by then.

`charDevRead` is one call by the values of `key_value` that it meets. `read_contract_iff` : a
call honours the contract of a read exactly if it finds no event. `read_of_run` : in every
interleaving of the device the read of a process is `charDevRead` at what it met there.
-/

set_option autoImplicit false

namespace LinuxDriverKb

namespace KeyDevice

/-! ## One call -/

/-- `EAGAIN`. -/
def eagain : ℤ := 11

/-- `ERESTARTSYS`. -/
def erestartsys : ℤ := 512

/-- `sizeof(value)`. -/
def sizeofValue : ℕ := 4

/-- A call and what it meets : `key_value` at each of its tests with whether a signal is
pending then, `key_value` at the second `atomic_read`, and the number of bytes
`copy_to_user` leaves. -/
structure Call where
  len : ℕ
  nonblock : Bool
  tests : List (ℤ × Bool)
  second : ℤ
  uncopied : ℕ
  uncopied_le : uncopied ≤ sizeofValue

/-- What a call returns, the value it has copied, the number of bytes of it that it has
written to the user's buffer, and whether it has cleared `key_value`. -/
structure Outcome where
  ret : ℤ
  value : Option ℤ
  written : ℕ
  cleared : Bool

/-- The tests of `wait_event_interruptible` on the queue. -/
def waitLoop : List (ℤ × Bool) → Option ℤ
  | [] => none
  | (key, sig) :: tests =>
    if key ≠ 0 then some 0 else if sig then some (-erestartsys) else waitLoop tests

/-- `wait_event_interruptible`, `none` while it waits. -/
def waitEventInterruptible : List (ℤ × Bool) → Option ℤ
  | [] => none
  | (key, _) :: tests => if key ≠ 0 then some 0 else waitLoop tests

/-- The second `atomic_read`, the `atomic_set`, and `copy_to_user`. -/
def Call.take (c : Call) : Outcome :=
  ⟨c.uncopied, some c.second, sizeofValue - c.uncopied, true⟩

/-- The call after what its wait has returned, `none` while it waits. -/
def Call.waited (c : Call) : Option ℤ → Option Outcome
  | none => none
  | some ret => if ret ≠ 0 then some ⟨-erestartsys, none, 0, false⟩ else some c.take

/-- `char_dev_read`, the same in the three drivers; `none` while it waits. -/
def charDevRead (c : Call) : Option Outcome :=
  match c.tests with
  | [] => none
  | (value, _) :: tests =>
    if value = 0 then
      if c.nonblock then some ⟨-eagain, none, 0, false⟩
      else c.waited (waitEventInterruptible tests)
    else some c.take

/-! ## What a read should do -/

/-- The user has all of the value of an event. -/
def Outcome.Delivers (o : Outcome) : Prop :=
  (∃ v, o.value = some v ∧ v ≠ 0) ∧ o.written = sizeofValue

/-- No byte is written behind the buffer; an event that is delivered is cleared, and the
number of its bytes returned; else an error is returned, and nothing is cleared. -/
structure Contract (len : ℕ) (o : Outcome) : Prop where
  written : o.written ≤ len
  delivers : o.Delivers → o.ret = o.written ∧ 0 < o.ret ∧ o.cleared = true
  fails : ¬o.Delivers → o.ret < 0 ∧ o.cleared = false

/-- The tests on the queue find no event before a signal ends them. -/
def Idle : List (ℤ × Bool) → Prop
  | [] => True
  | (key, sig) :: tests => key = 0 ∧ (sig = true ∨ Idle tests)

/-- Nor does the test before them. -/
def WaitIdle : List (ℤ × Bool) → Prop
  | [] => True
  | (key, _) :: tests => key = 0 ∧ Idle tests

/-- `key_value` is 0 at every test the call makes. -/
def NoEvent (nonblock : Bool) : List (ℤ × Bool) → Prop
  | [] => True
  | (value, _) :: tests => value = 0 ∧ (nonblock = true ∨ WaitIdle tests)

/-! ## The contract -/

/-- A wait without an event goes on, or ends with the error of a signal. -/
theorem waitLoop_cases : ∀ tests : List (ℤ × Bool),
    (Idle tests ∧ (waitLoop tests = none ∨ waitLoop tests = some (-erestartsys))) ∨
      (¬Idle tests ∧ waitLoop tests = some 0)
  | [] => .inl ⟨True.intro, .inl rfl⟩
  | (key, sig) :: tests => by
    rw [waitLoop, Idle]
    by_cases hkey : key = 0
    · rw [if_neg (not_not.mpr hkey)]
      by_cases hsig : sig = true
      · rw [if_pos hsig]
        exact .inl ⟨⟨hkey, .inl hsig⟩, .inr rfl⟩
      · rw [if_neg hsig]
        rcases waitLoop_cases tests with ⟨hidle, hret⟩ | ⟨hidle, hret⟩
        · exact .inl ⟨⟨hkey, .inr hidle⟩, hret⟩
        · exact .inr ⟨fun h => hidle (h.2.resolve_left hsig), hret⟩
    · rw [if_pos hkey]
      exact .inr ⟨fun h => hkey h.1, rfl⟩

theorem waitEventInterruptible_cases (tests : List (ℤ × Bool)) :
    (WaitIdle tests ∧ (waitEventInterruptible tests = none ∨
      waitEventInterruptible tests = some (-erestartsys))) ∨
      (¬WaitIdle tests ∧ waitEventInterruptible tests = some 0) := by
  cases tests with
  | nil => exact .inl ⟨True.intro, .inl rfl⟩
  | cons test tests =>
    rw [waitEventInterruptible, WaitIdle]
    by_cases hkey : test.1 = 0
    · rw [if_neg (not_not.mpr hkey)]
      rcases waitLoop_cases tests with ⟨hidle, hret⟩ | ⟨hidle, hret⟩
      · exact .inl ⟨⟨hkey, hidle⟩, hret⟩
      · exact .inr ⟨fun h => hidle h.2, hret⟩
    · rw [if_pos hkey]
      exact .inr ⟨fun h => hkey h.1, rfl⟩

/-- A call that has not touched anything, and returns an error. -/
def Outcome.Refused (o : Outcome) : Prop :=
  o.ret < 0 ∧ o.value = none ∧ o.written = 0 ∧ o.cleared = false

/-- A call without an event waits or is refused; any other takes the value. -/
theorem charDevRead_cases (c : Call) :
    (NoEvent c.nonblock c.tests ∧ ∀ o, charDevRead c = some o → o.Refused) ∨
      (¬NoEvent c.nonblock c.tests ∧ charDevRead c = some c.take) := by
  unfold charDevRead
  cases c.tests with
  | nil => exact .inl ⟨True.intro, nofun⟩
  | cons test tests =>
    dsimp only
    rw [NoEvent]
    by_cases hvalue : test.1 = 0
    · rw [if_pos hvalue]
      by_cases hblock : c.nonblock = true
      · rw [if_pos hblock]
        refine .inl ⟨⟨hvalue, .inl hblock⟩, fun o ho => ?_⟩
        obtain rfl := Option.some.inj ho
        exact ⟨by decide, rfl, rfl, rfl⟩
      · rw [if_neg hblock]
        rcases waitEventInterruptible_cases tests with ⟨hidle, hret | hret⟩ | ⟨hidle, hret⟩
        · rw [hret]
          exact .inl ⟨⟨hvalue, .inr hidle⟩, nofun⟩
        · rw [hret]
          refine .inl ⟨⟨hvalue, .inr hidle⟩, fun o ho => ?_⟩
          obtain rfl := Option.some.inj ho
          exact ⟨by decide, rfl, rfl, rfl⟩
        · rw [hret]
          exact .inr ⟨fun h => hidle (h.2.resolve_left hblock), rfl⟩
    · rw [if_neg hvalue]
      exact .inr ⟨fun h => hvalue h.1, rfl⟩

theorem Outcome.Refused.contract {o : Outcome} (h : o.Refused) (len : ℕ) : Contract len o := by
  obtain ⟨hret, hvalue, hwritten, hcleared⟩ := h
  refine ⟨hwritten ▸ Nat.zero_le len, fun hdelivers => ?_, fun _ => ⟨hret, hcleared⟩⟩
  obtain ⟨⟨v, hv, -⟩, -⟩ := hdelivers
  rw [hvalue] at hv
  exact nomatch hv

/-- What is taken is never returned as a count : a whole copy returns 0. -/
theorem not_contract_take (c : Call) (len : ℕ) : ¬Contract len c.take := by
  intro h
  by_cases hdelivers : c.take.Delivers
  · obtain ⟨-, hpos, -⟩ := h.delivers hdelivers
    have hwritten : sizeofValue - c.uncopied = sizeofValue := hdelivers.2
    have hle := c.uncopied_le
    have hsize : sizeofValue = 4 := rfl
    have hret : (0 : ℤ) < c.uncopied := hpos
    omega
  · exact absurd (h.fails hdelivers).1 (Int.not_lt.mpr (Int.natCast_nonneg c.uncopied))

/-- For every length, every history of `key_value`, either kind of file and every outcome of
the copy : what the call returns honours the contract if and only if `key_value` is 0 at every
test the call makes. -/
theorem read_contract_iff (c : Call) :
    (∀ o, charDevRead c = some o → Contract c.len o) ↔ NoEvent c.nonblock c.tests := by
  rcases charDevRead_cases c with ⟨hno, hrefused⟩ | ⟨hevent, htake⟩
  · exact iff_of_true (fun o ho => (hrefused o ho).contract c.len) hno
  · exact iff_of_false (fun h => not_contract_take c c.len (h _ htake)) hevent

/-- An event is read whole into a buffer of four bytes, and 0 returned; if nothing of it can be
copied it is lost, and 4 returned. -/
theorem event_returns_zero :
    let whole : Call := ⟨4, true, [(1, false)], 1, 0, by decide⟩
    let lost : Call := ⟨4, true, [(1, false)], 1, 4, by decide⟩
    charDevRead whole = some ⟨0, some 1, 4, true⟩ ∧
      charDevRead lost = some ⟨4, some 1, 0, true⟩ ∧
      (¬∀ o, charDevRead whole = some o → Contract whole.len o) ∧
      ¬∀ o, charDevRead lost = some o → Contract lost.len o := by
  intro whole lost
  exact ⟨rfl, rfl, fun h => not_contract_take whole 4 (h _ rfl),
    fun h => not_contract_take lost 4 (h _ rfl)⟩

/-! ## A read among the steps of other processes -/

/-- In `char_dev_read`. -/
def Pc.Reading : Pc → Prop
  | .test | .waitTest | .prepare | .recheck | .asleep | .sample | .clear _ _ | .copy _ _ => True
  | .idle | .pollQueue | .pollTest | .pollAsleep => False

/-- The next step of the read tests `key_value`. -/
def Pc.tests : Pc → Bool
  | .test | .waitTest | .recheck => true
  | _ => false

/-- The rest of the call, from where it is and with the tests that are left. -/
def Call.resume (c : Call) (pc : Pc) (tests : List (ℤ × Bool)) : Option Outcome :=
  match pc with
  | .test => charDevRead { c with tests := tests }
  | .waitTest => c.waited (waitEventInterruptible tests)
  | .prepare | .recheck | .asleep => c.waited (waitLoop tests)
  | .sample | .clear _ _ | .copy _ _ => some c.take
  | .idle | .pollQueue | .pollTest | .pollAsleep => none

variable {Proc : Type} [DecidableEq Proc]

/-- What the read of `q` tests in a step. -/
def met (q : Proc) (s : State Proc) : Action Proc → List (ℤ × Bool)
  | .next r =>
    if r = q ∧ (s.procs q).pc.tests = true then [(s.key, (s.procs q).sig)] else []
  | _ => []

/-- And in a run. -/
def metInRun (d : Driver) (q : Proc) : State Proc → List (Action Proc) → List (ℤ × Bool)
  | _, [] => []
  | s, a :: as => met q s a ++ (step d s a).elim [] fun s' => metInRun d q s' as

/-- The action starts a call of `q`. -/
def Action.Starts (q : Proc) : Action Proc → Prop
  | .read r _ | .poll r => r = q
  | _ => False

variable {d : Driver} {s s' : State Proc} {q : Proc} {a : Action Proc}

theorem Call.waited_with (c : Call) (tests : List (ℤ × Bool)) (ret : Option ℤ) :
    Call.waited { c with tests := tests } ret = c.waited ret := by
  cases ret <;> rfl

/-- A read goes on from `l` to `l'`, and makes the tests `ts` on the way. -/
structure GoesOn (l l' : Local) (ts : List (ℤ × Bool)) : Prop where
  reading : l.pc.Reading
  nonblock : l'.nonblock = l.nonblock
  resume : ∀ c : Call, c.nonblock = l.nonblock →
    ∀ tests, c.resume l.pc (ts ++ tests) = c.resume l'.pc tests

/-- A step that leaves the read where it is. -/
theorem GoesOn.of_pc {l l' : Local} (hpc : l'.pc = l.pc) (hnonblock : l'.nonblock = l.nonblock)
    (hr' : l'.pc.Reading) : GoesOn l l' [] :=
  ⟨hpc ▸ hr', hnonblock, fun _ _ _ => by rw [hpc, List.nil_append]⟩

theorem GoesOn.trans {l l' l'' : Local} {ts ts' : List (ℤ × Bool)} (h : GoesOn l l' ts)
    (h' : GoesOn l' l'' ts') : GoesOn l l'' (ts ++ ts') := by
  refine ⟨h.reading, h'.nonblock.trans h.nonblock, fun c hc tests => ?_⟩
  rw [List.append_assoc, h.resume c hc, h'.resume c (hc.trans h.nonblock.symm)]

/-- The first test of a call that does not give up there. -/
theorem Call.resume_test {c : Call} {key : ℤ} (hblock : key = 0 → c.nonblock ≠ true) (sig : Bool)
    (tests : List (ℤ × Bool)) :
    c.resume .test ((key, sig) :: tests) =
      c.resume (if key ≠ 0 then .sample else .waitTest) tests := by
  by_cases hkey : key = 0
  · have hcall : charDevRead { c with tests := (key, sig) :: tests } =
        c.waited (waitEventInterruptible tests) := by
      rw [charDevRead]
      dsimp only
      rw [if_pos hkey, if_neg (hblock hkey)]
      exact c.waited_with _ _
    simp only [hkey] at hcall ⊢
    exact hcall
  · simp [Call.resume, charDevRead, hkey, Call.take]

/-- The test of `wait_event_interruptible` before it waits. -/
theorem Call.resume_waitTest (c : Call) (key : ℤ) (sig : Bool) (tests : List (ℤ × Bool)) :
    c.resume .waitTest ((key, sig) :: tests) =
      c.resume (if key ≠ 0 then .sample else .prepare) tests := by
  by_cases hkey : key = 0
  · simp [Call.resume, waitEventInterruptible, hkey]
  · simp [Call.resume, waitEventInterruptible, hkey, Call.waited]

/-- A test of its loop that no signal ends. -/
theorem Call.resume_recheck (c : Call) {key : ℤ} {sig : Bool} (hsig : key = 0 → sig ≠ true)
    (tests : List (ℤ × Bool)) :
    c.resume .recheck ((key, sig) :: tests) =
      c.resume (if key ≠ 0 then .sample else .asleep) tests := by
  by_cases hkey : key = 0
  · simp [Call.resume, waitLoop, hkey, hsig hkey]
  · simp [Call.resume, waitLoop, hkey, Call.waited]

/-- A step of the read itself. -/
theorem goesOn_next {l l' : Local} {key : ℤ} (hl : l.next key = some l')
    (hr' : l'.pc.Reading) :
    GoesOn l l' (if l.pc.tests = true then [(key, l.sig)] else []) := by
  unfold Local.next at hl
  cases hpc : l.pc with
  | test =>
    simp only [hpc] at hl
    obtain rfl := Option.some.inj hl
    have hblock : key = 0 → l.nonblock ≠ true := fun hkey hblock => by
      simp [hkey, hblock, Pc.Reading] at hr'
    refine ⟨hpc ▸ True.intro, rfl, fun c hc tests => ?_⟩
    rw [hpc]
    refine (Call.resume_test (hc ▸ hblock) l.sig tests).trans ?_
    by_cases hkey : key = 0
    · simp [hkey, hblock hkey]
    · simp [hkey]
  | waitTest =>
    simp only [hpc] at hl
    obtain rfl := Option.some.inj hl
    refine ⟨hpc ▸ True.intro, rfl, fun c _ tests => ?_⟩
    rw [hpc]
    exact c.resume_waitTest key l.sig tests
  | recheck =>
    simp only [hpc] at hl
    split_ifs at hl with hkey hsig
    · obtain rfl := Option.some.inj hl
      refine ⟨hpc ▸ True.intro, rfl, fun c _ tests => ?_⟩
      rw [hpc]
      refine (c.resume_recheck (fun h => absurd h hkey) tests).trans ?_
      rw [if_pos hkey]
    · obtain rfl := Option.some.inj hl
      exact hr'.elim
    · obtain rfl := Option.some.inj hl
      refine ⟨hpc ▸ True.intro, rfl, fun c _ tests => ?_⟩
      rw [hpc]
      refine (c.resume_recheck (fun _ => hsig) tests).trans ?_
      rw [if_neg hkey]
  | prepare =>
    simp only [hpc] at hl
    obtain rfl := Option.some.inj hl
    exact ⟨hpc ▸ True.intro, rfl, fun _ _ _ => by rw [hpc]; rfl⟩
  | asleep =>
    simp only [hpc] at hl
    split_ifs at hl
    obtain rfl := Option.some.inj hl
    exact ⟨hpc ▸ True.intro, rfl, fun _ _ _ => by rw [hpc]; rfl⟩
  | sample | clear | copy => simp [hpc] at hl
  | idle => simp [hpc] at hl
  | pollQueue =>
    simp only [hpc] at hl
    obtain rfl := Option.some.inj hl
    exact hr'.elim
  | pollTest | pollAsleep =>
    simp only [hpc] at hl
    split_ifs at hl
    all_goals
      obtain rfl := Option.some.inj hl
      exact hr'.elim

/-- A notification leaves every read where it is. -/
theorem pc_of_notifyStep (h : notifyStep s = some s') (q : Proc) :
    (s'.procs q).pc = (s.procs q).pc ∧ (s'.procs q).nonblock = (s.procs q).nonblock := by
  unfold notifyStep at h
  cases hh : s.handler <;> simp only [hh] at h
  · exact nomatch h
  · obtain rfl := Option.some.inj h
    exact ⟨rfl, rfl⟩
  · obtain rfl := Option.some.inj h
    simp only [killFasync]
    split_ifs <;> exact ⟨rfl, rfl⟩
  · obtain rfl := Option.some.inj h
    exact ⟨rfl, rfl⟩

/-- A step that changes one process, `q` or another. -/
theorem goesOn_setLocal {r : Proc} {l : Local}
    (hself : r = q → l.pc.Reading → GoesOn (s.procs q) l [])
    (hr' : ((s.setLocal r l).procs q).pc.Reading) :
    GoesOn (s.procs q) ((s.setLocal r l).procs q) [] := by
  rcases s.setLocal_cases r l q with ⟨hqr, hl⟩ | ⟨-, hl⟩
  · rw [hl] at hr' ⊢
    exact hself hqr.symm hr'
  · rw [hl] at hr' ⊢
    exact .of_pc rfl rfl hr'

/-- A step that starts no call of `q` and leaves it in a read. -/
theorem goesOn_step (hstep : step d s a = some s') (hstart : ¬a.Starts q)
    (hr' : (s'.procs q).pc.Reading) : GoesOn (s.procs q) (s'.procs q) (met q s a) := by
  cases stepCase_of_step hstep with
  | press => exact .of_pc rfl rfl hr'
  | noPress => exact .of_pc rfl rfl hr'
  | notify hnotify =>
    obtain ⟨hpc, hnonblock⟩ := pc_of_notifyStep hnotify q
    exact .of_pc hpc hnonblock hr'
  | read => exact goesOn_setLocal (fun hrq => absurd hrq hstart) hr'
  | poll => exact goesOn_setLocal (fun hrq => absurd hrq hstart) hr'
  | @next r l hl =>
    by_cases hrq : r = q
    · subst hrq
      rw [State.setLocal_procs_self] at hr' ⊢
      simp only [met, true_and]
      exact goesOn_next hl hr'
    · have hmet : met q s (.next r) = [] := if_neg fun h => hrq h.1
      rw [hmet]
      exact goesOn_setLocal (fun h => absurd h hrq) hr'
  | @sample r =>
    have hpc : (s.procs r).pc = .sample := by
      by_contra h
      simp [step, h] at hstep
    refine goesOn_setLocal (fun hrq _ => ?_) hr'
    subst hrq
    exact ⟨hpc ▸ True.intro, rfl, fun _ _ _ => by rw [hpc]; rfl⟩
  | clear hpc =>
    refine goesOn_setLocal (fun hrq _ => ?_) hr'
    subst hrq
    exact ⟨hpc ▸ True.intro, rfl, fun _ _ _ => by rw [hpc]; rfl⟩
  | copy => exact goesOn_setLocal (fun _ hr => hr.elim) hr'
  | signal =>
    refine goesOn_setLocal (fun hrq hr => ?_) hr'
    subst hrq
    exact .of_pc rfl rfl hr
  | mask => exact .of_pc rfl rfl hr'
  | fasync => exact .of_pc rfl rfl hr'
  | release => exact .of_pc rfl rfl hr'

/-- Over a run that starts no call of `q` and leaves it in a read. -/
theorem goesOn_run : ∀ {as : List (Action Proc)} {s t : State Proc},
    Transition.run (step d) s as = some t → (∀ a ∈ as, ¬a.Starts q) → (t.procs q).pc.Reading →
      GoesOn (s.procs q) (t.procs q) (metInRun d q s as)
  | [], s, t, hrun, _, hr => by
    obtain rfl := Option.some.inj hrun
    exact .of_pc rfl rfl hr
  | a :: as, s, t, hrun, hstart, hr => by
    obtain ⟨s', hstep, hrun⟩ := Option.bind_eq_some_iff.mp hrun
    have hrest := goesOn_run hrun (fun b hb => hstart b (List.mem_cons_of_mem a hb)) hr
    have hfirst := goesOn_step hstep (hstart a List.mem_cons_self) hrest.reading
    rw [metInRun, hstep, Option.elim_some]
    exact hfirst.trans hrest

/-- What a call returns in its next step, if it does. -/
def returnedByNext (l : Local) (key : ℤ) : Option Outcome :=
  match l.pc with
  | .test => if key = 0 ∧ l.nonblock = true then some ⟨-eagain, none, 0, false⟩ else none
  | .recheck => if key = 0 ∧ l.sig = true then some ⟨-erestartsys, none, 0, false⟩ else none
  | _ => none

/-- What a call returns after its copy. -/
def returnedByCopy (l : Local) (uncopied : ℕ) : Option Outcome :=
  match l.pc with
  | .copy v _ => some ⟨uncopied, some v, sizeofValue - uncopied, true⟩
  | _ => none

/-- What the call of `q` that an action ends has returned. -/
def returned (q : Proc) (s : State Proc) : Action Proc → Option Outcome
  | .next r => if r = q then returnedByNext (s.procs q) s.key else none
  | .copy r uncopied => if r = q then returnedByCopy (s.procs q) uncopied else none
  | _ => none

/-- The value a read has taken. -/
def taken (l : Local) : ℤ :=
  match l.pc with
  | .copy v _ => v
  | _ => 0

/-- What an action leaves uncopied. -/
def Action.uncopied : Action Proc → ℕ
  | .copy _ uncopied => uncopied
  | _ => 0

theorem resume_returnedByNext {c : Call} {l : Local} {key : ℤ} {o : Outcome}
    (ho : returnedByNext l key = some o) (hnonblock : c.nonblock = l.nonblock) :
    c.resume l.pc (if l.pc.tests = true then [(key, l.sig)] else []) = some o := by
  unfold returnedByNext at ho
  split at ho
  · rename_i hpc
    split_ifs at ho with h
    rw [← ho, hpc]
    simp [Pc.tests, Call.resume, charDevRead, h.1, hnonblock.trans h.2]
  · rename_i hpc
    split_ifs at ho with h
    rw [← ho, hpc]
    simp [Pc.tests, Call.resume, waitLoop, h.1, h.2, Call.waited, erestartsys]
  · exact nomatch ho

theorem resume_returnedByCopy {c : Call} {l : Local} {o : Outcome}
    (ho : returnedByCopy l c.uncopied = some o) (hsecond : c.second = taken l) :
    c.resume l.pc [] = some o := by
  unfold returnedByCopy at ho
  split at ho
  · rename_i v t hpc
    rw [← ho, hpc]
    simp only [taken, hpc] at hsecond
    simp only [Call.resume, Call.take, hsecond]
  · exact nomatch ho

theorem reading_of_returnedByNext {l : Local} {key : ℤ} {o : Outcome}
    (ho : returnedByNext l key = some o) : l.pc.Reading := by
  unfold returnedByNext at ho
  split at ho
  · rename_i hpc
    exact hpc ▸ True.intro
  · rename_i hpc
    exact hpc ▸ True.intro
  · exact nomatch ho

theorem reading_of_returnedByCopy {l : Local} {uncopied : ℕ} {o : Outcome}
    (ho : returnedByCopy l uncopied = some o) : l.pc.Reading := by
  unfold returnedByCopy at ho
  split at ho
  · rename_i hpc
    exact hpc ▸ True.intro
  · exact nomatch ho

/-- What a return is of : the next step of `q`, or its copy. -/
theorem returned_cases {o : Outcome} (ho : returned q s a = some o) :
    (a = .next q ∧ returnedByNext (s.procs q) s.key = some o) ∨
      ∃ uncopied, a = .copy q uncopied ∧ returnedByCopy (s.procs q) uncopied = some o := by
  cases a with
  | next r =>
    by_cases hrq : r = q
    · rw [returned, if_pos hrq] at ho
      exact .inl ⟨hrq ▸ rfl, ho⟩
    · rw [returned, if_neg hrq] at ho
      exact nomatch ho
  | copy r uncopied =>
    by_cases hrq : r = q
    · rw [returned, if_pos hrq] at ho
      exact .inr ⟨uncopied, hrq ▸ rfl, ho⟩
    · rw [returned, if_neg hrq] at ho
      exact nomatch ho
  | _ => exact nomatch ho

theorem reading_of_returned {o : Outcome} (ho : returned q s a = some o) :
    (s.procs q).pc.Reading := by
  rcases returned_cases ho with ⟨-, hnext⟩ | ⟨_, -, hcopy⟩
  · exact reading_of_returnedByNext hnext
  · exact reading_of_returnedByCopy hcopy

/-- A call that has come to its return, or to its copy, returns what it does there. -/
theorem resume_returned {c : Call} {o : Outcome} (ho : returned q s a = some o)
    (hnonblock : c.nonblock = (s.procs q).nonblock) (hsecond : c.second = taken (s.procs q))
    (huncopied : c.uncopied = a.uncopied) :
    c.resume (s.procs q).pc (met q s a) = some o := by
  rcases returned_cases ho with ⟨rfl, hnext⟩ | ⟨uncopied, rfl, hcopy⟩
  · simp only [met, true_and]
    exact resume_returnedByNext hnext hnonblock
  · obtain rfl : c.uncopied = uncopied := huncopied
    exact resume_returnedByCopy hcopy hsecond

theorem exists_returnedByNext {l l' : Local} {key : ℤ} (hl : l.next key = some l')
    (hr : l.pc.Reading) (hr' : ¬l'.pc.Reading) : ∃ o, returnedByNext l key = some o := by
  unfold Local.next at hl
  unfold returnedByNext
  cases hpc : l.pc with
  | test =>
    simp only [hpc] at hl
    obtain rfl := Option.some.inj hl
    have hend : key = 0 ∧ l.nonblock = true := by
      by_contra h
      by_cases hkey : key = 0 <;> simp_all [Pc.Reading]
    exact ⟨_, if_pos hend⟩
  | recheck =>
    simp only [hpc] at hl
    split_ifs at hl with hkey hsig
    · obtain rfl := Option.some.inj hl
      exact absurd True.intro hr'
    · exact ⟨_, if_pos ⟨not_not.mp hkey, hsig⟩⟩
    · obtain rfl := Option.some.inj hl
      exact absurd True.intro hr'
  | waitTest =>
    simp only [hpc] at hl
    obtain rfl := Option.some.inj hl
    by_cases hkey : key = 0 <;> simp [hkey, Pc.Reading] at hr'
  | prepare =>
    simp only [hpc] at hl
    obtain rfl := Option.some.inj hl
    exact absurd True.intro hr'
  | asleep =>
    simp only [hpc] at hl
    split_ifs at hl
    obtain rfl := Option.some.inj hl
    exact absurd True.intro hr'
  | sample | clear | copy => simp [hpc] at hl
  | idle | pollQueue | pollTest | pollAsleep =>
    rw [hpc] at hr
    exact hr.elim

/-- A read that ends has returned. -/
theorem exists_returned (hstep : step d s a = some s') (hr : (s.procs q).pc.Reading)
    (hr' : ¬(s'.procs q).pc.Reading) : ∃ o, returned q s a = some o := by
  have hself : ∀ {r : Proc} {l : Local}, ¬((s.setLocal r l).procs q).pc.Reading →
      r = q ∧ ¬l.pc.Reading := by
    intro r l hl
    rcases s.setLocal_cases r l q with ⟨hqr, hprocs⟩ | ⟨-, hprocs⟩
    · exact ⟨hqr.symm, hprocs ▸ hl⟩
    · exact absurd (hprocs ▸ hr) hl
  cases stepCase_of_step hstep with
  | press | noPress | mask | fasync | release => exact absurd hr hr'
  | notify hnotify => exact absurd ((pc_of_notifyStep hnotify q).1 ▸ hr) hr'
  | read => exact absurd True.intro (hself hr').2
  | poll =>
    obtain ⟨rfl, -⟩ := hself hr'
    simp only [step] at hstep
    split_ifs at hstep with h
    rw [h.2] at hr
    exact hr.elim
  | next hl =>
    obtain ⟨rfl, hl'⟩ := hself hr'
    rw [returned, if_pos rfl]
    exact exists_returnedByNext hl hr hl'
  | sample => exact absurd True.intro (hself hr').2
  | clear => exact absurd True.intro (hself hr').2
  | copy hpc =>
    obtain ⟨rfl, -⟩ := hself hr'
    rw [returned, if_pos rfl, returnedByCopy, hpc]
    exact ⟨_, rfl⟩
  | signal =>
    obtain ⟨rfl, hl⟩ := hself hr'
    exact absurd hr hl

/-- In every interleaving a read returns what `charDevRead` returns at the tests it has made,
the value it has taken and the outcome of its copy. -/
theorem read_of_run {nonblock : Bool} {as : List (Action Proc)} {t : State Proc} {o : Outcome}
    {c : Call} (hread : step d s (.read q nonblock) = some s')
    (hrun : Transition.run (step d) s' as = some t) (hstart : ∀ b ∈ as, ¬b.Starts q)
    (ho : returned q t a = some o) (hnonblock : c.nonblock = nonblock)
    (htests : c.tests = metInRun d q s' as ++ met q t a) (hsecond : c.second = taken (t.procs q))
    (huncopied : c.uncopied = a.uncopied) : charDevRead c = some o := by
  simp only [step] at hread
  split_ifs at hread
  obtain rfl := Option.some.inj hread
  have hlocal : (s.setLocal q ⟨.test, nonblock, false, false, false⟩).procs q =
      ⟨.test, nonblock, false, false, false⟩ := State.setLocal_procs_self _ _ _
  have hgoes := goesOn_run hrun hstart (reading_of_returned ho)
  rw [hlocal] at hgoes
  have hresume := hgoes.resume c hnonblock (met q t a)
  rw [← htests, resume_returned ho (hnonblock.trans hgoes.nonblock.symm) hsecond huncopied]
    at hresume
  exact hresume

end KeyDevice

end LinuxDriverKb
