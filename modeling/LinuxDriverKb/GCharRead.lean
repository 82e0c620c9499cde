import Mathlib.Data.Int.Notation
import Mathlib.Data.List.Perm.Subperm
import LinuxDriverKb.Lib.ByteMem
import LinuxDriverKb.Lib.Calls
import LinuxDriverKb.Lib.Transition

/-!
# Concurrent reads of `g_char.c`

All readers of the gadget share one request, one buffer and the flag `r_able`, and no lock.
A read clears the flag, queues the request, waits for the flag, and returns what the request
holds by then; a signal makes it dequeue the request instead. The controller takes the request
off its queue and then, without a lock, calls `g_char_complete`, which sets the flag whatever
the status is; in between another read can queue the request again.

`read_exact` : every transfer that completes with status 0 is returned by exactly one read, in
every run in which the reads and the controller do not get in each other's way. Those are the
runs in which no reader clears the flag or queues the request while another has yet to see its
transfer or `g_char_complete` has yet to run, no packet arrives while a reader copies the last
one, a transfer with data completes with status 0 exactly if a reader waits for it, and no
signal ends that wait before `g_char_complete`.
-/

set_option autoImplicit false

namespace LinuxDriverKb

namespace GCharRead

open ByteMem (memcpy bytes bytes_length)

/-! ## The driver and the controller -/

/-- `BUFLEN`. -/
def bufLen : ℕ := 4096

/-- `EFAULT`. -/
def efault : ℤ := 14

/-- `EBUSY`. -/
def ebusy : ℤ := 16

/-- `ECONNRESET`. -/
def econnreset : ℤ := 104

/-- `ERESTARTSYS`. -/
def erestartsys : ℤ := 512

/-- Where a `g_char_read` is : before the line that clears `r_able`, before `usb_ep_queue`, in
`wait_event_interruptible`, woken, with `n` bytes to copy to the user, interrupted and before
`usb_ep_dequeue`, or returned. -/
inductive Pc
  | clear
  | queue
  | wait
  | count
  | copy (n : ℕ)
  | dequeue
  | returned (ret : ℤ)
  deriving DecidableEq

/-- A call, with room for all of the request. -/
structure Reader where
  count : { n : ℕ // bufLen ≤ n }
  pc : Pc

/-- The request `in_req`, the number of calls of `g_char_complete` that have yet to run, the
flag, the calls made so far, and, which the driver does not know, the data of the transfers that
completed with status 0 and those that reads have returned. -/
structure State where
  readers : List Reader
  queued : Bool
  callbacks : ℕ
  rAble : Bool
  buf : ℕ → UInt8
  actual : ℕ
  completed : List (List UInt8)
  delivered : List (List UInt8)

/-- A transfer without data is nothing to return. -/
def record (data : List UInt8) (log : List (List UInt8)) : List (List UInt8) :=
  if data = [] then log else log ++ [data]

/-- The controller takes the request off its queue, and will call `g_char_complete`. -/
def giveback (status : ℤ) (s : State) : State :=
  { s with
    queued := false
    callbacks := s.callbacks + 1
    completed :=
      if status = 0 then record (bytes s.buf s.actual) s.completed else s.completed }

/-- `g_char_complete`, the same for each status. -/
def gCharComplete (s : State) : State :=
  { s with callbacks := s.callbacks - 1, rAble := true }

/-- `usb_ep_dequeue` : no effect on a request that is not queued. -/
def usbEpDequeue (s : State) : State :=
  if s.queued then giveback (-econnreset) s else s

/-- Reader `i` goes on to `pc`. -/
def State.move (s : State) (i : ℕ) (r : Reader) (pc : Pc) : State :=
  { s with readers := s.readers.set i { r with pc := pc } }

/-- One step of `g_char_read`. -/
def gCharRead (s : State) (i : ℕ) (r : Reader) : Option State :=
  match r.pc with
  | .clear => some ({ s with rAble := false }.move i r .queue)
  | .queue => some <|
    if s.queued then s.move i r (.returned (-ebusy))
    else { s with queued := true, actual := 0 }.move i r .wait
  | .wait => if s.rAble then some (s.move i r .count) else none
  | .count => some (s.move i r (.copy (min r.count s.actual)))
  | .copy n => some
    ({ s with delivered := record (bytes s.buf n) s.delivered }.move i r (.returned n))
  | .dequeue => some ((usbEpDequeue s).move i r (.returned (-erestartsys)))
  | .returned _ => none

/-- A new call, or the next step of the `i`-th one; an error of `usb_ep_queue`; a signal, which
a wait sees only while the flag is clear; a fault of `copy_to_user`; a packet from the host, the
end of the transfer, or a run of `g_char_complete`. -/
inductive Action
  | call (count : { n : ℕ // bufLen ≤ n })
  | next (i : ℕ)
  | refuse (i : ℕ) (err : ℕ)
  | signal (i : ℕ)
  | fault (i : ℕ)
  | packet (data : List UInt8)
  | complete (status : ℤ)
  | callback

/-- The step of call `i`, if it is at `pc`. -/
def State.stepAt (s : State) (i : ℕ) (pc new : Pc) : Option State :=
  s.readers[i]?.bind fun r => if r.pc = pc then some (s.move i r new) else none

/-- One step of the readers or of the controller. -/
def step (s : State) : Action → Option State
  | .call count => some { s with readers := s.readers ++ [⟨count, .clear⟩] }
  | .next i => s.readers[i]?.bind (gCharRead s i)
  | .refuse i err => s.stepAt i .queue (.returned (-(err + 1)))
  | .signal i => if s.rAble then none else s.stepAt i .wait .dequeue
  | .fault i => s.readers[i]?.bind fun r =>
    match r.pc with
    | .copy _ => some (s.move i r (.returned (-efault)))
    | _ => none
  | .packet data =>
    if s.queued = true ∧ s.actual + data.length ≤ bufLen then
      some { s with
        buf := memcpy s.buf s.actual (fun k => data.getD k 0) 0 data.length
        actual := s.actual + data.length }
    else none
  | .complete status => if s.queued then some (giveback status s) else none
  | .callback => if 0 < s.callbacks then some (gCharComplete s) else none

/-- No call yet; what the flag and the buffer hold does not matter. -/
def start (rAble : Bool) (buf : ℕ → UInt8) : State :=
  ⟨[], false, 0, rAble, buf, 0, [], []⟩

/-! ## What a run should do -/

/-- Reader `i` is at `pc`. -/
def At (s : State) (i : ℕ) (pc : Pc) : Prop :=
  Calls.At Reader.pc s.readers i pc

/-- Every call has returned. -/
def Quiescent (s : State) : Prop :=
  ∀ r ∈ s.readers, ∃ ret, r.pc = .returned ret

/-- Reader `i` will look at the request next, which is off the queue. -/
def Ready (s : State) (i : ℕ) : Prop :=
  At s i .count ∨ (At s i .wait ∧ s.queued = false)

/-- Reader `i` is about to return data, and can go on, or `g_char_complete` is to run. -/
def Delivering (s : State) (i : ℕ) : Prop :=
  (Ready s i ∨ ∃ n, At s i (.copy n)) ∧
    ((∃ s', step s (.next i) = some s') ∨ 0 < s.callbacks)

/-- The reads have returned the data of completed transfers, each at most once, and once no call
is in progress, exactly once; data that are not returned yet wait for nothing but
`g_char_complete`. -/
structure Exact (s : State) : Prop where
  once : s.delivered.Subperm s.completed
  all : Quiescent s → s.delivered.Perm s.completed
  onTheWay : s.delivered.Perm s.completed ∨ ∃ i, Delivering s i

/-- After the step the reads are exact. -/
def Holds (_ : State) (_ : Action) (s' : State) : Prop :=
  Exact s'

/-- Some reader is at `pc`. -/
def AnyAt (s : State) (pc : Pc) : Prop :=
  Calls.AnyAt Reader.pc s.readers pc

/-- The transfer in progress ends with status 0 exactly if a reader waits for its data. -/
def Expected (s : State) (status : ℤ) : Prop :=
  0 < s.actual → (status = 0 ↔ AnyAt s .wait)

/-- The next step of a reader at `pc` does not disturb a transfer. -/
def UndisturbedAt (s : State) (pc : Pc) : Prop :=
  match pc with
  | .clear => s.rAble = true → ¬AnyAt s .wait
  | .queue => s.queued = false → s.rAble = false ∧ s.callbacks = 0 ∧ ¬AnyAt s .count
  | .dequeue => s.queued = true → Expected s (-econnreset)
  | _ => True

/-- Bytes are left to copy. -/
def Pc.copying : Pc → Bool
  | .copy n => 0 < n
  | _ => false

/-- The step does not disturb the transfer of another one. -/
def Undisturbed (s : State) (a : Action) (_ : State) : Prop :=
  match a with
  | .next i => ∀ r ∈ s.readers[i]?, UndisturbedAt s r.pc
  | .fault i => ∀ r ∈ s.readers[i]?, r.pc.copying = false
  | .signal _ => 0 < s.callbacks → s.actual = 0
  | .packet data => data ≠ [] → ∀ r ∈ s.readers, r.pc.copying = false
  | .complete status => Expected s status
  | _ => True

instance (s : State) (pc : Pc) : Decidable (AnyAt s pc) :=
  inferInstanceAs (Decidable (Calls.AnyAt _ _ _))

instance (s : State) (status : ℤ) : Decidable (Expected s status) :=
  inferInstanceAs (Decidable (_ → _))

instance (s : State) (pc : Pc) : Decidable (UndisturbedAt s pc) :=
  match pc with
  | .clear | .queue | .dequeue => inferInstanceAs (Decidable (_ → _))
  | .wait | .count | .copy _ | .returned _ => inferInstanceAs (Decidable True)

instance (s : State) (a : Action) (s' : State) : Decidable (Undisturbed s a s') :=
  match a with
  | .next i => inferInstanceAs (Decidable (∀ r ∈ s.readers[i]?, _))
  | .fault i => inferInstanceAs (Decidable (∀ r ∈ s.readers[i]?, _))
  | .packet _ | .signal _ => inferInstanceAs (Decidable (_ → _))
  | .complete status => inferInstanceAs (Decidable (Expected s status))
  | .call _ | .refuse _ _ | .callback => inferInstanceAs (Decidable True)

/-! ## The transfer on its way -/

/-- Reader `i` waits, or is woken and has not looked at the request yet. -/
def Active (s : State) (i : ℕ) : Prop :=
  At s i .wait ∨ At s i .count

/-- The data that have completed and are not returned yet : none, those of the request, which a
reader will look at, or those a reader copies. -/
inductive Pending (s : State) : List (List UInt8) → Prop
  | none (hready : ∀ j, Ready s j → s.actual = 0) (hcopy : ∀ j n, At s j (.copy n) → n = 0) :
    Pending s []
  | ready (j : ℕ) (hj : Ready s j) (hactual : 0 < s.actual)
    (hcopy : ∀ j n, At s j (.copy n) → n = 0) : Pending s [bytes s.buf s.actual]
  | copying (j n : ℕ) (hj : At s j (.copy n)) (hn : 0 < n)
    (hidle : (s.queued = true ∨ ∃ k, Ready s k) → s.actual = 0)
    (hcopy : ∀ k m, At s k (.copy m) → k = j ∨ m = 0) : Pending s [bytes s.buf n]

/-- At most one reader is active; the flag is clear and no `g_char_complete` outstanding while
the request is queued; and a reader waits only for one of the three. -/
structure Inv (s : State) : Prop where
  one : ∀ i j, Active s i → Active s j → i = j
  able : s.queued = true → s.rAble = false ∧ s.callbacks = 0
  idle : s.queued = true → ∀ i, ¬At s i .count
  wait : ∀ i, At s i .wait → s.queued = true ∨ s.rAble = true ∨ 0 < s.callbacks
  bound : s.actual ≤ bufLen
  pending : ∃ p, Pending s p ∧ s.completed = s.delivered ++ p

theorem inv_start (rAble : Bool) (buf : ℕ → UInt8) : Inv (start rAble buf) where
  one _ _ h := absurd h (by rintro (h | h) <;> exact Calls.at_nil h)
  able h := absurd h Bool.false_ne_true
  idle h := absurd h Bool.false_ne_true
  wait _ h := absurd h Calls.at_nil
  bound := Nat.zero_le _
  pending := ⟨[], .none (fun _ _ => rfl) fun _ _ h => absurd h Calls.at_nil, rfl⟩

/-! ## What a step does -/

theorem stepAt_eq {s s' : State} {i : ℕ} {pc new : Pc} (h : s.stepAt i pc new = some s') :
    ∃ r, s.readers[i]? = some r ∧ r.pc = pc ∧ s' = s.move i r new := by
  obtain ⟨r, hr, h⟩ := Option.bind_eq_some_iff.mp h
  split at h
  · exact ⟨r, hr, ‹_›, (Option.some.inj h).symm⟩
  · cases h

theorem fault_eq {s s' : State} {i : ℕ} (h : step s (.fault i) = some s') :
    ∃ r n, s.readers[i]? = some r ∧ r.pc = .copy n ∧ s' = s.move i r (.returned (-efault)) := by
  obtain ⟨r, hr, h⟩ := Option.bind_eq_some_iff.mp h
  split at h
  · exact ⟨r, _, hr, ‹_›, (Option.some.inj h).symm⟩
  · cases h

theorem record_pos (buf : ℕ → UInt8) {n : ℕ} (hn : 0 < n) (log : List (List UInt8)) :
    record (bytes buf n) log = log ++ [bytes buf n] := by
  refine if_neg fun h => ?_
  rw [← bytes_length buf n, h] at hn
  simp at hn

@[simp] theorem record_zero (buf : ℕ → UInt8) (log : List (List UInt8)) :
    record (bytes buf 0) log = log :=
  if_pos rfl

/-! ## Steps that leave the transfer alone -/

/-- The step moves no reader to the request or from the data on its way, and clears the flag only
if no reader depends on it. -/
theorem Inv.frame {s : State} (h : Inv s) {readers : List Reader} {able : Bool}
    (hable : able = true → s.rAble = true)
    (hwait : ∀ j, Calls.At Reader.pc readers j .wait → At s j .wait)
    (hflag : ∀ j, Calls.At Reader.pc readers j .wait → s.rAble = true → able = true)
    (hkeep : ∀ j, At s j .wait → s.queued = false → 0 < s.actual →
      Calls.At Reader.pc readers j .wait)
    (hcount : ∀ j, Calls.At Reader.pc readers j .count ↔ At s j .count)
    (hcopy : ∀ j n, 0 < n → (Calls.At Reader.pc readers j (.copy n) ↔ At s j (.copy n))) :
    Inv { s with readers := readers, rAble := able } := by
  have hready : ∀ j, Ready { s with readers := readers, rAble := able } j → Ready s j :=
    fun j => Or.imp (hcount j).mp fun hj => ⟨hwait j hj.1, hj.2⟩
  have hactive : ∀ j, Active { s with readers := readers, rAble := able } j → Active s j :=
    fun j => Or.imp (hwait j) (hcount j).mp
  refine ⟨fun i j hi hj => h.one i j (hactive i hi) (hactive j hj),
    fun hq => ⟨?_, (h.able hq).2⟩, fun hq i hi => h.idle hq i ((hcount i).mp hi),
    fun i hi => ?_, h.bound, ?_⟩
  · have := (h.able hq).1
    exact Bool.eq_false_iff.mpr fun hb => by simp [hable hb] at this
  · exact (h.wait i (hwait i hi)).imp_right (Or.imp_left (hflag i hi))
  have hzero : ∀ j n, Calls.At Reader.pc readers j (.copy n) → n = 0 ∨ At s j (.copy n) := by
    intro j n hj
    rcases n.eq_zero_or_pos with rfl | hn
    · exact Or.inl rfl
    · exact Or.inr ((hcopy j n hn).mp hj)
  obtain ⟨p, hp, hlog⟩ := h.pending
  refine ⟨p, ?_, hlog⟩
  cases hp with
  | none hr hc =>
    exact .none (fun j hj => hr j (hready j hj)) fun j n hj =>
      (hzero j n hj).elim id (hc j n)
  | ready j hj hact hc =>
    have hj' : Ready { s with readers := readers, rAble := able } j :=
      hj.imp (hcount j).mpr fun hj => ⟨hkeep j hj.1 hj.2 hact, hj.2⟩
    exact .ready j hj' hact fun k n hk => (hzero k n hk).elim id (hc k n)
  | copying j n hj hn hidle hc =>
    refine .copying j n ((hcopy j n hn).mpr hj) hn ?_ fun k m hk => ?_
    · rintro (hq | ⟨k, hk⟩)
      · exact hidle (Or.inl hq)
      · exact hidle (Or.inr ⟨k, hready k hk⟩)
    · exact (hzero k m hk).elim Or.inr (hc k m)

/-- The place has nothing to do with a transfer. -/
def Pc.Free (pc : Pc) : Prop :=
  pc ≠ .wait ∧ pc ≠ .count ∧ ∀ n, 0 < n → pc ≠ .copy n

/-- A step between two such places. -/
theorem Inv.move {s : State} (h : Inv s) {i : ℕ} {r : Reader} {new : Pc}
    (hr : s.readers[i]? = some r) (hfree : r.pc.Free) (hnew : new.Free) :
    Inv (s.move i r new) := by
  have hi : Calls.At Reader.pc s.readers i r.pc := ⟨r, hr, rfl⟩
  have hwait : ∀ j, Calls.At Reader.pc (s.move i r new).readers j .wait ↔ At s j .wait :=
    fun j => Calls.at_set_of_ne hi hfree.1 hnew.1
  refine h.frame id (fun j => (hwait j).mp) (fun _ _ => id) (fun j hj _ _ => (hwait j).mpr hj)
    (fun j => Calls.at_set_of_ne hi hfree.2.1 hnew.2.1)
    fun j n hn => Calls.at_set_of_ne hi (hfree.2.2 n hn) (hnew.2.2 n hn)

theorem inv_call {s : State} (h : Inv s) (count : { n : ℕ // bufLen ≤ n }) :
    Inv { s with readers := s.readers ++ [⟨count, .clear⟩] } := by
  have hat : ∀ pc, pc ≠ .clear → ∀ j,
      Calls.At Reader.pc (s.readers ++ [⟨count, .clear⟩]) j pc ↔ At s j pc :=
    fun pc hpc j => Calls.at_append_of_ne (Ne.symm hpc)
  have hwait := hat .wait (by decide)
  exact h.frame id (fun j => (hwait j).mp) (fun _ _ => id) (fun j hj _ _ => (hwait j).mpr hj)
    (hat .count (by decide)) fun j n _ => hat (.copy n) (by simp) j

/-- Clearing the flag, while no reader is to see it. -/
theorem inv_clear {s : State} (h : Inv s) {i : ℕ} {r : Reader} (hr : s.readers[i]? = some r)
    (hpc : r.pc = .clear) (hfree : s.rAble = true → ¬AnyAt s .wait) :
    Inv ({ s with rAble := false }.move i r .queue) := by
  have hi : Calls.At Reader.pc s.readers i .clear := ⟨r, hr, hpc⟩
  have hwait : ∀ j, Calls.At Reader.pc (s.move i r .queue).readers j .wait ↔ At s j .wait :=
    fun j => Calls.at_set_of_ne hi (by simp) (by simp)
  exact h.frame (fun hb => absurd hb Bool.false_ne_true) (fun j => (hwait j).mp)
    (fun j hj hable => absurd ((hwait j).mp hj).anyAt (hfree hable))
    (fun j hj _ _ => (hwait j).mpr hj)
    (fun j => Calls.at_set_of_ne hi (by simp) (by simp))
    fun j n _ => Calls.at_set_of_ne hi (by simp) (by simp)

/-- A signal : the reader stops to wait, and no data are on their way to it. -/
theorem inv_signal {s : State} (h : Inv s) {i : ℕ} {r : Reader} (hr : s.readers[i]? = some r)
    (hpc : r.pc = .wait) (hable : s.rAble = false) (hok : 0 < s.callbacks → s.actual = 0) :
    Inv (s.move i r .dequeue) := by
  have hi : Calls.At Reader.pc s.readers i .wait := ⟨r, hr, hpc⟩
  have hzero : s.queued = false → s.actual = 0 := by
    intro hq
    rcases h.wait i hi with hset | hset | hpos
    · exact absurd (hq.symm.trans hset) Bool.false_ne_true
    · exact absurd (hable.symm.trans hset) Bool.false_ne_true
    · exact hok hpos
  refine h.frame id (fun j hj => ?_) (fun _ _ => id)
    (fun j _ hq hpos => absurd (hzero hq) (Nat.ne_of_gt hpos))
    (fun j => Calls.at_set_of_ne hi (by simp) (by simp))
    fun j n _ => Calls.at_set_of_ne hi (by simp) (by simp)
  rcases (Calls.at_set hr).mp hj with ⟨-, hne⟩ | ⟨-, hj⟩
  · cases hne
  · exact hj

/-! ## Steps of the transfer -/

/-- Queuing the request : its reader is the only one. -/
theorem inv_queue {s : State} (h : Inv s) {i : ℕ} {r : Reader} (hr : s.readers[i]? = some r)
    (hpc : r.pc = .queue) (hfree : s.queued = false) (hable : s.rAble = false)
    (hback : s.callbacks = 0) (hany : ¬AnyAt s .count) :
    Inv ({ s with queued := true, actual := 0 }.move i r .wait) := by
  have hi : Calls.At Reader.pc s.readers i .queue := ⟨r, hr, hpc⟩
  set s' := State.move { s with queued := true, actual := 0 } i r .wait with hs'
  have hcount : ∀ j, ¬At s j .count := fun j hj => hany hj.anyAt
  have hno : ∀ j, ¬At s j .wait := fun j hj => by
    rcases h.wait j hj with hq | hb | hpos
    · simp [hfree] at hq
    · simp [hable] at hb
    · omega
  have hcount' : ∀ j, ¬At s' j .count :=
    fun j hj => hcount j ((Calls.at_set_of_ne hi (by simp) (by simp)).mp hj)
  have hcopy : ∀ j n, At s' j (.copy n) ↔ At s j (.copy n) :=
    fun j n => Calls.at_set_of_ne hi (by simp) (by simp)
  have hself : ∀ j, Active s' j → j = i := by
    rintro j (hj | hj)
    · rcases (Calls.at_set hr).mp hj with ⟨hji, -⟩ | ⟨-, hj⟩
      · exact hji
      · exact absurd hj (hno j)
    · exact absurd hj (hcount' j)
  refine ⟨fun j k hj hk => (hself j hj).trans (hself k hk).symm, fun _ => ⟨hable, hback⟩,
    fun _ => hcount', fun _ _ => Or.inl rfl, Nat.zero_le _, ?_⟩
  obtain ⟨p, hp, hlog⟩ := h.pending
  refine ⟨p, ?_, hlog⟩
  cases hp with
  | none _ hc => exact .none (fun _ _ => rfl) fun j n hj => hc j n ((hcopy j n).mp hj)
  | ready j hj _ _ => exact absurd hj (by rintro (hj | hj); exacts [hcount j hj, hno j hj.1])
  | copying j n hj hn _ hc =>
    exact .copying j n ((hcopy j n).mpr hj) hn (fun _ => rfl) fun k m hk =>
      hc k m ((hcopy k m).mp hk)

/-- The reader wakes. -/
theorem inv_wake {s : State} (h : Inv s) {i : ℕ} {r : Reader} (hr : s.readers[i]? = some r)
    (hpc : r.pc = .wait) (hable : s.rAble = true) : Inv (s.move i r .count) := by
  have hi : Calls.At Reader.pc s.readers i .wait := ⟨r, hr, hpc⟩
  have hq : s.queued = false :=
    Bool.eq_false_iff.mpr fun hq => by simp [(h.able hq).1] at hable
  have hcopy : ∀ j n, At (s.move i r .count) j (.copy n) ↔ At s j (.copy n) :=
    fun j n => Calls.at_set_of_ne hi (by simp) (by simp)
  have hready : ∀ j, Ready (s.move i r .count) j ↔ Ready s j := by
    intro j
    unfold Ready At State.move
    rw [Calls.at_set hr, Calls.at_set hr]
    by_cases hji : j = i
    · subst hji
      exact ⟨fun _ => Or.inr ⟨hi, hq⟩, fun _ => Or.inl (Or.inl ⟨rfl, rfl⟩)⟩
    · simp [hji]
  have hactive : ∀ j, Active (s.move i r .count) j → Active s j := fun j hj =>
    ((hready j).mp (hj.elim (fun hj => Or.inr ⟨hj, hq⟩) Or.inl)).elim Or.inr
      fun hj => Or.inl hj.1
  refine ⟨fun j k hj hk => h.one j k (hactive j hj) (hactive k hk), h.able,
    fun hset => absurd (hq.symm.trans hset) Bool.false_ne_true,
    fun _ _ => Or.inr (Or.inl hable), h.bound, ?_⟩
  obtain ⟨p, hp, hlog⟩ := h.pending
  refine ⟨p, ?_, hlog⟩
  cases hp with
  | none hr hc =>
    exact .none (fun j hj => hr j ((hready j).mp hj)) fun j n hj => hc j n ((hcopy j n).mp hj)
  | ready j hj hact hc =>
    exact .ready j ((hready j).mpr hj) hact fun k n hk => hc k n ((hcopy k n).mp hk)
  | copying j n hj hn hidle hc =>
    refine .copying j n ((hcopy j n).mpr hj) hn ?_ fun k m hk => hc k m ((hcopy k m).mp hk)
    rintro (hset | ⟨k, hk⟩)
    · exact hidle (Or.inl hset)
    · exact hidle (Or.inr ⟨k, (hready k).mp hk⟩)

/-- The reader takes the length of the transfer, all of which it has room for. -/
theorem inv_count {s : State} (h : Inv s) {i : ℕ} {r : Reader} (hr : s.readers[i]? = some r)
    (hpc : r.pc = .count) : Inv (s.move i r (.copy (min r.count s.actual))) := by
  have hi : Calls.At Reader.pc s.readers i .count := ⟨r, hr, hpc⟩
  rw [Nat.min_eq_right (Nat.le_trans h.bound r.count.2)]
  set s' := s.move i r (.copy s.actual) with hs'
  have hq : s.queued = false := Bool.eq_false_iff.mpr fun hq => h.idle hq i hi
  have hnone : ∀ j, ¬Active s' j := by
    intro j hj
    obtain ⟨hji, hj⟩ : j ≠ i ∧ Active s j := by
      rcases hj with hj | hj
      · obtain ⟨-, hne⟩ | ⟨hji, hj⟩ := (Calls.at_set hr).mp hj
        · cases hne
        · exact ⟨hji, Or.inl hj⟩
      · obtain ⟨-, hne⟩ | ⟨hji, hj⟩ := (Calls.at_set hr).mp hj
        · cases hne
        · exact ⟨hji, Or.inr hj⟩
    exact hji (h.one j i hj (Or.inr hi))
  have hready : ∀ j, ¬Ready s' j := fun j hj => hnone j (hj.elim Or.inr fun hj => Or.inl hj.1)
  have hcopy : ∀ j n, At s' j (.copy n) → (j = i ∧ n = s.actual) ∨ At s j (.copy n) := by
    intro j n hj
    rcases (Calls.at_set hr).mp hj with ⟨hji, hn⟩ | ⟨-, hj⟩
    · exact Or.inl ⟨hji, (Pc.copy.inj hn).symm⟩
    · exact Or.inr hj
  have hkeep : ∀ j n, At s j (.copy n) → At s' j (.copy n) := by
    intro j n hj
    refine (Calls.at_set hr).mpr (Or.inr ⟨?_, hj⟩)
    rintro rfl
    exact Pc.noConfusion (Calls.At.unique hi hj)
  refine ⟨fun j _ hj => absurd hj (hnone j), h.able,
    fun hset => absurd (hq.symm.trans hset) Bool.false_ne_true,
    fun j hj => absurd (Or.inl hj) (hnone j), h.bound, ?_⟩
  obtain ⟨p, hp, hlog⟩ := h.pending
  refine ⟨p, ?_, hlog⟩
  cases hp with
  | none hact hc =>
    refine .none (fun j hj => absurd hj (hready j)) fun j n hj => ?_
    rcases hcopy j n hj with ⟨-, rfl⟩ | hj
    · exact hact i (Or.inl hi)
    · exact hc j n hj
  | ready j hj hact hc =>
    refine .copying i s.actual ((Calls.at_set hr).mpr (Or.inl ⟨rfl, rfl⟩)) hact ?_ ?_
    · rintro (hset | ⟨k, hk⟩)
      · exact absurd (hq.symm.trans hset) Bool.false_ne_true
      · exact absurd hk (hready k)
    · exact fun k m hk => (hcopy k m hk).imp And.left (hc k m)
  | copying j n hj hn hidle hc =>
    refine .copying j n (hkeep j n hj) hn (fun _ => hidle (Or.inr ⟨i, Or.inl hi⟩)) fun k m hk => ?_
    rcases hcopy k m hk with ⟨-, rfl⟩ | hk
    · exact Or.inr (hidle (Or.inr ⟨i, Or.inl hi⟩))
    · exact hc k m hk

/-- The data a reader copies are those on their way. -/
theorem Inv.copying {s : State} (h : Inv s) {i n : ℕ} (hi : At s i (.copy n)) (hn : 0 < n) :
    ((s.queued = true ∨ ∃ k, Ready s k) → s.actual = 0) ∧
      (∀ k m, At s k (.copy m) → k = i ∨ m = 0) ∧
      s.completed = s.delivered ++ [bytes s.buf n] := by
  obtain ⟨p, hp, hlog⟩ := h.pending
  cases hp with
  | none _ hc => exact absurd (hc i n hi) (Nat.ne_of_gt hn)
  | ready _ _ _ hc => exact absurd (hc i n hi) (Nat.ne_of_gt hn)
  | copying j m hj _ hidle hc =>
    obtain rfl : i = j := (hc i n hi).resolve_right (Nat.ne_of_gt hn)
    obtain rfl : n = m := Pc.copy.inj (Calls.At.unique hi hj)
    exact ⟨hidle, hc, hlog⟩

/-- A read that returns data returns those on their way. -/
theorem inv_return {s : State} (h : Inv s) {i n : ℕ} {r : Reader}
    (hr : s.readers[i]? = some r) (hpc : r.pc = .copy n) (hn : 0 < n) :
    Inv ({ s with delivered := s.delivered ++ [bytes s.buf n] }.move i r (.returned n)) := by
  have hi : Calls.At Reader.pc s.readers i (.copy n) := ⟨r, hr, hpc⟩
  set s' := State.move { s with delivered := s.delivered ++ [bytes s.buf n] } i r (.returned n)
    with hs'
  have hwait : ∀ j, At s' j .wait ↔ At s j .wait :=
    fun j => Calls.at_set_of_ne hi (by simp) (by simp)
  have hcount : ∀ j, At s' j .count ↔ At s j .count :=
    fun j => Calls.at_set_of_ne hi (by simp) (by simp)
  have hactive : ∀ j, Active s' j → Active s j := fun j => Or.imp (hwait j).mp (hcount j).mp
  obtain ⟨hidle, hc, hlog⟩ := h.copying hi hn
  refine ⟨fun j k hj hk => h.one j k (hactive j hj) (hactive k hk), h.able,
    fun hq j hj => h.idle hq j ((hcount j).mp hj), fun j hj => h.wait j ((hwait j).mp hj),
    h.bound, [], .none (fun k hk => hidle (Or.inr ⟨k, ?_⟩)) fun k m hk => ?_, ?_⟩
  · exact hk.imp (hcount k).mp fun hk => ⟨(hwait k).mp hk.1, hk.2⟩
  · rcases (Calls.at_set hr).mp hk with ⟨-, hne⟩ | ⟨hki, hk⟩
    · cases hne
    · exact (hc k m hk).resolve_left hki
  · exact hlog.trans (List.append_nil _).symm

/-- A packet from the host, while no reader copies data. -/
theorem inv_packet {s : State} (h : Inv s) {data : List UInt8} (hq : s.queued = true)
    (hroom : s.actual + data.length ≤ bufLen)
    (hcopy : data ≠ [] → ∀ r ∈ s.readers, r.pc.copying = false) :
    Inv { s with
      buf := memcpy s.buf s.actual (fun k => data.getD k 0) 0 data.length
      actual := s.actual + data.length } := by
  rcases eq_or_ne data [] with rfl | hdata
  · simpa using h
  have hready : ∀ j, ¬Ready s j := by
    rintro j (hj | ⟨-, hfree⟩)
    · exact h.idle hq j hj
    · simp [hq] at hfree
  refine ⟨h.one, h.able, h.idle, h.wait, hroom, ?_⟩
  obtain ⟨p, hp, hlog⟩ := h.pending
  refine ⟨p, ?_, hlog⟩
  cases hp with
  | none _ hc => exact .none (fun j hj => absurd hj (hready j)) hc
  | ready j hj => exact absurd hj (hready j)
  | copying j n hj hn =>
    obtain ⟨r, hr, hpc⟩ := hj
    have := hcopy hdata r (List.mem_of_getElem? hr)
    simp [hpc, Pc.copying] at this
    omega

/-- The request leaves the queue, with data and status 0 exactly if a reader waits for them. -/
theorem inv_giveback {s : State} (h : Inv s) {status : ℤ} (hq : s.queued = true)
    (hexp : Expected s status) : Inv (giveback status s) := by
  have hbefore : ∀ j, ¬Ready s j := by
    rintro j (hj | ⟨-, hfree⟩)
    · exact h.idle hq j hj
    · simp [hq] at hfree
  refine ⟨h.one, fun hset => absurd hset Bool.false_ne_true,
    fun hset => absurd hset Bool.false_ne_true,
    fun _ _ => Or.inr (Or.inr (Nat.succ_pos _)), h.bound, ?_⟩
  obtain ⟨p, hp, hlog⟩ := h.pending
  rcases Nat.eq_zero_or_pos s.actual with hzero | hpos
  -- Nothing has arrived : what is on its way stays.
  · refine ⟨p, ?_, ?_⟩
    · cases hp with
      | none _ hc => exact .none (fun _ _ => hzero) hc
      | ready j hj => exact absurd hj (hbefore j)
      | copying j n hj hn _ hc => exact .copying j n hj hn (fun _ => hzero) hc
    · simp [giveback, hzero, hlog]
  -- Otherwise nothing else is on its way, and the data now are if the status is 0.
  · cases hp with
    | none _ hc =>
      by_cases hstatus : status = 0
      · obtain ⟨j, hj⟩ := ((hexp hpos).mp hstatus).exists_at
        refine ⟨[bytes s.buf s.actual], .ready j (Or.inr ⟨hj, rfl⟩) hpos hc, ?_⟩
        simp [giveback, hstatus, record_pos s.buf hpos, hlog]
      · have hno : ∀ j, ¬At s j .wait := fun j hj => hstatus ((hexp hpos).mpr hj.anyAt)
        refine ⟨[], .none (fun j hj => ?_) hc, by simp [giveback, hstatus, hlog]⟩
        rcases hj with hj | hj
        · exact absurd hj (h.idle hq j)
        · exact absurd hj.1 (hno j)
    | ready j hj => exact absurd hj (hbefore j)
    | copying j n _ _ hidle => exact absurd (hidle (Or.inl hq)) (Nat.ne_of_gt hpos)

/-- `g_char_complete` runs : the request is off the queue, and who waits for it wakes. -/
theorem inv_callback {s : State} (h : Inv s) (hpos : 0 < s.callbacks) :
    Inv (gCharComplete s) where
  one := h.one
  able hq := by
    have hzero := (h.able hq).2
    omega
  idle := h.idle
  wait _ _ := Or.inr (Or.inl rfl)
  bound := h.bound
  pending := by
    obtain ⟨p, hp, hlog⟩ := h.pending
    refine ⟨p, ?_, hlog⟩
    cases hp with
    | none hr hc => exact .none hr hc
    | ready j hj hact hc => exact .ready j hj hact hc
    | copying j n hj hn hidle hc => exact .copying j n hj hn hidle hc

/-! ## Runs -/

theorem inv_next {s s' : State} (h : Inv s) {i : ℕ} {r : Reader} (hr : s.readers[i]? = some r)
    (hstep : gCharRead s i r = some s') (hun : Undisturbed s (.next i) s') : Inv s' := by
  have hok := hun r hr
  unfold gCharRead at hstep
  cases hpc : r.pc <;> rw [hpc] at hstep hok
  case clear =>
    obtain rfl := Option.some.inj hstep
    exact inv_clear h hr hpc hok
  case queue =>
    obtain rfl := Option.some.inj hstep
    cases hq : s.queued
    · obtain ⟨hable, hback, hcount⟩ := hok hq
      exact inv_queue h hr hpc hq hable hback hcount
    · exact h.move hr (by simp [Pc.Free, hpc]) (by simp [Pc.Free])
  case wait =>
    simp only at hstep
    split at hstep
    · obtain rfl := Option.some.inj hstep
      exact inv_wake h hr hpc ‹_›
    · cases hstep
  case count =>
    obtain rfl := Option.some.inj hstep
    exact inv_count h hr hpc
  case copy n =>
    obtain rfl := Option.some.inj hstep
    rcases Nat.eq_zero_or_pos n with rfl | hn
    · rw [record_zero]
      exact h.move hr (by simp [Pc.Free, hpc]; omega) (by simp [Pc.Free])
    · rw [record_pos s.buf hn]
      exact inv_return h hr hpc hn
  case dequeue =>
    obtain rfl := Option.some.inj hstep
    have hinv : Inv (usbEpDequeue s) := by
      unfold usbEpDequeue
      split
      · exact inv_giveback h ‹_› (hok ‹_›)
      · exact h
    have hreaders : (usbEpDequeue s).readers = s.readers := by
      unfold usbEpDequeue giveback
      split <;> rfl
    exact hinv.move (hreaders ▸ hr) (by simp [Pc.Free, hpc]) (by simp [Pc.Free])
  case returned => cases hstep

/-- What one step preserves. -/
theorem inv_step {s s' : State} {a : Action} (h : Inv s) (hstep : step s a = some s')
    (hok : Undisturbed s a s') : Inv s' := by
  cases a with
  | call count =>
    obtain rfl := Option.some.inj hstep
    exact inv_call h count
  | next i =>
    obtain ⟨r, hr, hstep⟩ := Option.bind_eq_some_iff.mp hstep
    exact inv_next h hr hstep hok
  | refuse i err =>
    obtain ⟨r, hr, hpc, rfl⟩ := stepAt_eq hstep
    exact h.move hr (by simp [Pc.Free, hpc]) (by simp [Pc.Free])
  | signal i =>
    simp only [step] at hstep
    split at hstep
    · cases hstep
    · obtain ⟨r, hr, hpc, rfl⟩ := stepAt_eq hstep
      exact inv_signal h hr hpc (Bool.eq_false_iff.mpr ‹_›) hok
  | fault i =>
    obtain ⟨r, n, hr, hpc, rfl⟩ := fault_eq hstep
    obtain rfl : n = 0 := by simpa [hpc, Pc.copying] using hok r hr
    exact h.move hr (by simp [Pc.Free, hpc]; omega) (by simp [Pc.Free])
  | packet data =>
    simp only [step] at hstep
    split at hstep
    · obtain rfl := Option.some.inj hstep
      exact inv_packet h (And.left ‹_›) (And.right ‹_›) hok
    · cases hstep
  | complete status =>
    simp only [step] at hstep
    split at hstep
    · obtain rfl := Option.some.inj hstep
      exact inv_giveback h ‹_› hok
    · cases hstep
  | callback =>
    simp only [step] at hstep
    split at hstep
    · obtain rfl := Option.some.inj hstep
      exact inv_callback h ‹_›
    · cases hstep

theorem Inv.delivering {s : State} (h : Inv s) {i : ℕ} (hi : Ready s i) : Delivering s i := by
  refine ⟨Or.inl hi, ?_⟩
  rcases hi with ⟨r, hr, hpc⟩ | ⟨⟨r, hr, hpc⟩, hfree⟩
  · exact Or.inl ⟨_, by rw [step, hr, Option.bind_some, gCharRead, hpc]⟩
  · rcases h.wait i ⟨r, hr, hpc⟩ with hq | hable | hpos
    · exact absurd (hfree.symm.trans hq) Bool.false_ne_true
    · exact Or.inl ⟨_, by rw [step, hr, Option.bind_some, gCharRead, hpc]; exact if_pos hable⟩
    · exact Or.inr hpos

theorem delivering_of_copy {s : State} {i n : ℕ} (h : At s i (.copy n)) : Delivering s i := by
  refine ⟨Or.inr ⟨n, h⟩, Or.inl ?_⟩
  obtain ⟨r, hr, hpc⟩ := h
  exact ⟨_, by rw [step, hr, Option.bind_some, gCharRead, hpc]⟩

/-- A reader that is about to return data has not returned. -/
theorem Delivering.not_quiescent {s : State} {i : ℕ} (h : Delivering s i) : ¬Quiescent s := by
  intro hquiet
  have hno : ∀ {pc}, At s i pc → ∃ ret, pc = .returned ret := by
    rintro _ ⟨r, hr, rfl⟩
    exact hquiet r (List.mem_of_getElem? hr)
  rcases h.1 with (hi | ⟨hi, -⟩) | ⟨n, hi⟩ <;> obtain ⟨_, hne⟩ := hno hi <;> cases hne

theorem Inv.exact {s : State} (h : Inv s) : Exact s := by
  obtain ⟨p, hp, hlog⟩ := h.pending
  have honce : s.delivered.Subperm s.completed := by
    rw [hlog]
    exact (List.prefix_append s.delivered p).sublist.subperm
  have hway : s.delivered.Perm s.completed ∨ ∃ i, Delivering s i := by
    cases hp with
    | none => exact Or.inl (by simp [hlog])
    | ready j hj => exact Or.inr ⟨j, h.delivering hj⟩
    | copying j n hj => exact Or.inr ⟨j, delivering_of_copy hj⟩
  refine ⟨honce, fun hquiet => hway.resolve_right ?_, hway⟩
  rintro ⟨i, hi⟩
  exact hi.not_quiescent hquiet

/-- Reads lose and duplicate nothing in every run whose steps do not disturb a transfer of
another reader. -/
theorem read_exact (rAble : Bool) (buf : ℕ → UInt8) (as : List Action)
    (hok : Transition.Always step Undisturbed (start rAble buf) as) :
    Transition.Always step Holds (start rAble buf) as :=
  Transition.always_imp
    (fun _ _ _ h hstep hok => ⟨inv_step h hstep hok, (inv_step h hstep hok).exact⟩)
    (inv_start rAble buf) hok

/-- Two calls : the second finds the request queued, and the first returns the packet. -/
theorem read_exact_busy : Transition.Always step Holds (start false fun _ => 0)
    [.call ⟨4096, by decide⟩, .next 0, .next 0, .call ⟨4096, by decide⟩, .next 1, .next 1,
      .packet [1, 2], .complete 0, .callback, .next 0, .next 0, .next 0] :=
  read_exact false (fun _ => 0) _ (by decide)

/-- A signal interrupts the only reader, and the transfer completes before it dequeues the
request : the data are lost. A second transfer, which completes while the reader of the first
has yet to copy, is returned twice, and the first never. And a reader queues the request again
before `g_char_complete` has run for its last transfer : that one is lost. -/
theorem read_inexact :
    (∃ s, Transition.run step (start false fun _ => 0)
        [.call ⟨4096, by decide⟩, .next 0, .next 0, .packet [1], .signal 0, .complete 0,
          .callback, .next 0] = some s ∧
      s.readers.map Reader.pc = [.returned (-erestartsys)] ∧
      s.completed = [[1]] ∧ s.delivered = [] ∧ ¬Exact s) ∧
    (∃ s, Transition.run step (start false fun _ => 0)
        [.call ⟨4096, by decide⟩, .call ⟨4096, by decide⟩, .next 0, .next 0, .packet [1],
          .complete 0, .callback, .next 0, .next 0, .next 1, .next 1, .packet [2], .complete 0,
          .callback, .next 1, .next 1, .next 1, .next 0] = some s ∧
      s.readers.map Reader.pc = [.returned 1, .returned 1] ∧
      s.completed = [[1], [2]] ∧ s.delivered = [[2], [2]] ∧ ¬Exact s) ∧
    ∃ s, Transition.run step (start false fun _ => 0)
        [.call ⟨4096, by decide⟩, .call ⟨4096, by decide⟩, .next 0, .next 0, .packet [1],
          .complete 0, .next 1, .next 1, .callback, .next 0, .next 0, .next 0, .next 1, .next 1,
          .next 1] = some s ∧
      s.readers.map Reader.pc = [.returned 0, .returned 0] ∧
      s.completed = [[1]] ∧ s.delivered = [] ∧ ¬Exact s := by
  refine ⟨⟨_, rfl, rfl, rfl, rfl, fun h => ?_⟩, ⟨_, rfl, rfl, rfl, rfl, fun h => ?_⟩,
    ⟨_, rfl, rfl, rfl, rfl, fun h => ?_⟩⟩
  · have hquiet := h.all fun r hr => ⟨-erestartsys, by rw [List.mem_singleton.mp hr]⟩
    exact absurd hquiet.length_eq (by decide)
  · exact absurd (h.once.perm_of_length_le (by decide)) (by decide)
  · have hquiet := h.all fun r hr => ⟨0, by
      rcases List.mem_cons.mp hr with rfl | hr
      · rfl
      · rw [List.mem_singleton.mp hr]
        rfl⟩
    exact absurd hquiet.length_eq (by decide)

end GCharRead

end LinuxDriverKb
