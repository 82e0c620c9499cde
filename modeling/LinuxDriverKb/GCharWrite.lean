import Mathlib.Data.Int.Notation
import Mathlib.Data.List.Nodup
import LinuxDriverKb.Lib.ByteMem
import LinuxDriverKb.Lib.Calls
import LinuxDriverKb.Lib.Transition

/-!
# Concurrent writes of `g_char.c`

All writers of the gadget share one request, its buffer and length, and the flag `w_able`, and
no lock. A write clears the flag, sets the length and fills the buffer before it tries to queue
the request, so it does that also while the request still holds what another one has written
and the controller has not sent. The controller takes the request off its queue and then,
without a lock, calls `g_char_complete`, which sets the flag; in between another write can queue
the request again.

`write_exact` : every transfer is the payload of its own write, none is sent twice, and a write
returns the length of its transfer, in every run in which no write changes what another one has
put into the request and the controller has not sent, none clears the flag or queues the
request while another has yet to see its completion or `g_char_complete` has yet to run, and a
request that ends otherwise than by a complete transfer finds nobody waiting.
-/

set_option autoImplicit false

namespace LinuxDriverKb

namespace GCharWrite

open ByteMem (memcpy memset bytes bytes_length bytes_congr)

/-! ## The driver and the controller -/

/-- `BUFLEN`. -/
def bufLen : ℕ := 4096

/-- `EFAULT`. -/
def efault : ℤ := 14

/-- `EBUSY`. -/
def ebusy : ℤ := 16

/-- `ERESTARTSYS`. -/
def erestartsys : ℤ := 512

/-- Where a `g_char_write` is : before the line that clears `w_able`, before the one that sets
the length, before `copy_from_user`, in its copy of `n` bytes with `k` done, before
`usb_ep_queue`, in `wait_event_interruptible`, woken, interrupted and before `usb_ep_dequeue`,
or returned. -/
inductive Pc
  | clear
  | setLen
  | fill
  | copy (n k : ℕ)
  | queue
  | wait
  | ret
  | dequeue
  | returned (ret : ℤ)
  deriving DecidableEq

/-- A call with the buffer of its user. -/
structure Writer where
  buf : ℕ → UInt8
  count : ℕ
  pc : Pc

/-- What the call asks to be sent. -/
def Writer.want (w : Writer) : ℕ :=
  if w.count < bufLen then w.count else bufLen

/-- The bytes it asks to be sent. -/
def Writer.payload (w : Writer) : List UInt8 :=
  bytes w.buf w.want

/-- The request `out_req`, the number of calls of `g_char_complete` that have yet to run, the
flag, the calls made so far, and, which the driver does not know, how much the controller has
sent of the queued request, which call has queued it, and the transfers the host has seen, with
the call that queued each. -/
structure State where
  writers : List Writer
  callbacks : ℕ
  wAble : Bool
  length : ℕ
  buf : ℕ → UInt8
  actual : ℕ
  queued : Bool
  sent : Option ℕ
  owner : ℕ
  host : List (ℕ × List UInt8)

/-- The controller takes the request off its queue, and will call `g_char_complete`. -/
def giveback (actual : ℕ) (s : State) : State :=
  { s with actual := actual, queued := false, callbacks := s.callbacks + 1 }

/-- `g_char_complete`, the same for each status. -/
def gCharComplete (s : State) : State :=
  { s with callbacks := s.callbacks - 1, wAble := true }

/-- `usb_ep_dequeue` : no effect on a request that is not queued. -/
def usbEpDequeue (actual : ℕ) (s : State) : State :=
  if s.queued then giveback actual s else s

/-- Call `i` goes on to `pc`. -/
def State.move (s : State) (i : ℕ) (w : Writer) (pc : Pc) : State :=
  { s with writers := s.writers.set i { w with pc := pc } }

/-- One step of `g_char_write`; only the controller knows how much of a request it has sent
that is dequeued, so that step is one of its own. -/
def gCharWrite (s : State) (i : ℕ) (w : Writer) : Option State :=
  match w.pc with
  | .clear => some ({ s with wAble := false }.move i w .setLen)
  | .setLen => some ({ s with length := w.want }.move i w .fill)
  | .fill => some (s.move i w (.copy s.length 0))
  | .copy n k => some <|
    if k < n then { s with buf := memcpy s.buf k w.buf k 1 }.move i w (.copy n (k + 1))
    else s.move i w .queue
  | .queue => some <|
    if s.queued then s.move i w (.returned (-ebusy))
    else { s with queued := true, sent := none, actual := 0, owner := i }.move i w .wait
  | .wait => if s.wAble then some (s.move i w .ret) else none
  | .ret => some (s.move i w (.returned s.actual))
  | .dequeue | .returned _ => none

/-- A new call, or the next step of the `i`-th one; an error of `usb_ep_queue`; a signal, which
a wait sees only while the flag is clear; a fault of `copy_from_user`, which clears the rest of
the buffer; a dequeue; the controller sends the request, or takes it off its queue, after an
error (`ok` is false) or all of it sent; or a run of `g_char_complete`. -/
inductive Action
  | call (buf : ℕ → UInt8) (count : ℕ)
  | next (i : ℕ)
  | refuse (i : ℕ) (err : ℕ)
  | signal (i : ℕ)
  | fault (i : ℕ)
  | dequeue (i : ℕ) (actual : ℕ)
  | transmit
  | complete (ok : Bool) (actual : ℕ)
  | callback

/-- The step of call `i`, if it is at `pc`. -/
def State.stepAt (s : State) (i : ℕ) (pc new : Pc) : Option State :=
  s.writers[i]?.bind fun w => if w.pc = pc then some (s.move i w new) else none

/-- One step of the calls or of the controller. -/
def step (s : State) : Action → Option State
  | .call buf count => some { s with writers := s.writers ++ [⟨buf, count, .clear⟩] }
  | .next i => s.writers[i]?.bind (gCharWrite s i)
  | .refuse i err => s.stepAt i .queue (.returned (-(err + 1)))
  | .signal i => if s.wAble then none else s.stepAt i .wait .dequeue
  | .fault i => s.writers[i]?.bind fun w =>
    match w.pc with
    | .copy n k => some ({ s with buf := memset s.buf k 0 (n - k) }.move i w (.returned (-efault)))
    | _ => none
  | .dequeue i actual => (usbEpDequeue actual s).stepAt i .dequeue (.returned (-erestartsys))
  | .transmit =>
    if s.queued = true ∧ s.sent = none then
      some { s with sent := some s.length, host := s.host ++ [(s.owner, bytes s.buf s.length)] }
    else none
  | .complete ok actual =>
    if s.queued = true ∧ (ok = true → s.sent = some actual) then some (giveback actual s)
    else none
  | .callback => if 0 < s.callbacks then some (gCharComplete s) else none

/-- No call yet; what the flag and the request hold does not matter. -/
def start (wAble : Bool) (length : ℕ) (buf : ℕ → UInt8) : State :=
  ⟨[], 0, wAble, length, buf, 0, false, none, 0, []⟩

/-! ## What a run should do -/

/-- Call `i` is at `pc`. -/
def At (s : State) (i : ℕ) (pc : Pc) : Prop :=
  Calls.At Writer.pc s.writers i pc

/-- The host has seen a transfer of call `i`, of length `n`. -/
def Shown (s : State) (i n : ℕ) : Prop :=
  ∃ data, (i, data) ∈ s.host ∧ data.length = n

/-- Every transfer is the payload of the call that queued it, none is one's second, and a call
that returns a length returns that of its transfer. -/
structure Exact (s : State) : Prop where
  payload : ∀ i data, (i, data) ∈ s.host → ∃ w ∈ s.writers[i]?, data = w.payload
  once : (s.host.map Prod.fst).Nodup
  returned : ∀ i v, At s i (.returned v) → 0 ≤ v → ∃ n : ℕ, v = n ∧ Shown s i n

/-- After the step the writes are exact. -/
def Holds (_ : State) (_ : Action) (s' : State) : Prop :=
  Exact s'

/-- Some writer is at `pc`. -/
def AnyAt (s : State) (pc : Pc) : Prop :=
  Calls.AnyAt Writer.pc s.writers pc

/-- The call has set the length of the request, and not queued it yet. -/
def Pc.sized : Pc → Bool
  | .fill | .copy _ _ | .queue => true
  | _ => false

/-- The call has copied more than `k` bytes to the request, and not queued it yet. -/
def Pc.filled (k : ℕ) : Pc → Bool
  | .copy _ m => k < m
  | .queue => true
  | _ => false

/-- The request belongs to a call other than `i` : the controller has yet to send it, or a
call that has come as far as `p` has yet to queue it. -/
def Taken (s : State) (p : Pc → Bool) (i : ℕ) : Prop :=
  (s.queued = true ∧ s.sent = none) ∨
    ∃ j < s.writers.length, j ≠ i ∧ ∃ w ∈ s.writers[j]?, p w.pc = true

/-- Nobody waits for the request, or the controller has sent the length it reports. -/
def Expected (s : State) (actual : ℕ) : Prop :=
  AnyAt s .wait → s.sent = some actual

/-- The next step of call `i` does not disturb another one's transfer. -/
def UndisturbedAt (s : State) (i : ℕ) (w : Writer) : Prop :=
  match w.pc with
  | .clear => s.wAble = true → ¬AnyAt s .wait
  | .setLen => Taken s Pc.sized i → s.length = w.want
  | .copy n k => k < n → Taken s (Pc.filled k) i → s.buf k = w.buf k
  | .queue => s.queued = false → s.wAble = false ∧ s.callbacks = 0 ∧ ¬AnyAt s .ret
  | _ => True

/-- Nor does a fault of its copy. -/
def UndisturbedFault (s : State) (i : ℕ) (w : Writer) : Prop :=
  match w.pc with
  | .copy n k => Taken s (Pc.filled k) i → ∀ x < n, k ≤ x → s.buf x = 0
  | _ => True

/-- The step does not disturb the transfer of another one. -/
def Undisturbed (s : State) (a : Action) (_ : State) : Prop :=
  match a with
  | .next i => ∀ w ∈ s.writers[i]?, UndisturbedAt s i w
  | .fault i => ∀ w ∈ s.writers[i]?, UndisturbedFault s i w
  | .dequeue _ actual => s.queued = true → Expected s actual
  | .complete _ actual => Expected s actual
  | _ => True

instance (s : State) (pc : Pc) : Decidable (AnyAt s pc) :=
  inferInstanceAs (Decidable (Calls.AnyAt _ _ _))

instance (s : State) (p : Pc → Bool) (i : ℕ) : Decidable (Taken s p i) :=
  inferInstanceAs (Decidable (_ ∨ ∃ j < _, _ ∧ ∃ w ∈ _, _))

instance (s : State) (actual : ℕ) : Decidable (Expected s actual) :=
  inferInstanceAs (Decidable (_ → _))

instance (s : State) (i : ℕ) (w : Writer) : Decidable (UndisturbedAt s i w) :=
  match w with
  | ⟨_, _, .clear⟩ | ⟨_, _, .setLen⟩ | ⟨_, _, .copy _ _⟩ | ⟨_, _, .queue⟩ =>
    inferInstanceAs (Decidable (_ → _))
  | ⟨_, _, .fill⟩ | ⟨_, _, .wait⟩ | ⟨_, _, .ret⟩ | ⟨_, _, .dequeue⟩ | ⟨_, _, .returned _⟩ =>
    inferInstanceAs (Decidable True)

instance (s : State) (i : ℕ) (w : Writer) : Decidable (UndisturbedFault s i w) :=
  match w with
  | ⟨_, _, .copy _ _⟩ => inferInstanceAs (Decidable (_ → _))
  | ⟨_, _, .clear⟩ | ⟨_, _, .setLen⟩ | ⟨_, _, .fill⟩ | ⟨_, _, .queue⟩ | ⟨_, _, .wait⟩
  | ⟨_, _, .ret⟩ | ⟨_, _, .dequeue⟩ | ⟨_, _, .returned _⟩ => inferInstanceAs (Decidable True)

instance (s : State) (a : Action) (s' : State) : Decidable (Undisturbed s a s') :=
  match a with
  | .next i => inferInstanceAs (Decidable (∀ w ∈ s.writers[i]?, _))
  | .fault i => inferInstanceAs (Decidable (∀ w ∈ s.writers[i]?, _))
  | .dequeue _ actual => inferInstanceAs (Decidable (_ → Expected s actual))
  | .complete _ actual => inferInstanceAs (Decidable (Expected s actual))
  | .call _ _ | .refuse _ _ | .signal _ | .transmit | .callback => inferInstanceAs (Decidable True)

/-! ## Whose the request is -/

/-- Call `i` has not queued the request. -/
def Fresh (s : State) (i : ℕ) : Prop :=
  i ∉ s.host.map Prod.fst ∧ (s.queued = true → s.owner ≠ i)

/-- The request has the length `w` asks for and its first `k` bytes. -/
def Filled (s : State) (w : Writer) (k : ℕ) : Prop :=
  s.length = w.want ∧ ∀ x < k, s.buf x = w.buf x

/-- Call `i` waits for the request, which is its own, or which has completed. -/
def Waits (s : State) (i : ℕ) : Prop :=
  (s.queued = true ∧ s.owner = i) ∨
    (s.queued = false ∧ (s.wAble = true ∨ 0 < s.callbacks) ∧ Shown s i s.actual)

/-- What holds of a call at its place. -/
def Local (s : State) (i : ℕ) (w : Writer) : Prop :=
  match w.pc with
  | .clear | .setLen => Fresh s i
  | .fill => Fresh s i ∧ Filled s w 0
  | .copy n k => Fresh s i ∧ n = s.length ∧ k ≤ n ∧ Filled s w k
  | .queue => Fresh s i ∧ Filled s w s.length
  | .wait => Waits s i
  | .ret => s.queued = false ∧ Shown s i s.actual
  | .dequeue => True
  | .returned v => 0 ≤ v → ∃ n : ℕ, v = n ∧ Shown s i n

/-- What holds of the request. -/
structure Shared (s : State) : Prop where
  able : s.queued = true → s.wAble = false ∧ s.callbacks = 0
  owner : s.queued = true → s.owner < s.writers.length
  unsent : s.queued = true → s.sent = none →
    s.owner ∉ s.host.map Prod.fst ∧ ∃ w ∈ s.writers[s.owner]?, Filled s w s.length
  sent : s.queued = true → ∀ n, s.sent = some n → Shown s s.owner n
  payload : ∀ i data, (i, data) ∈ s.host → ∃ w ∈ s.writers[i]?, data = w.payload
  once : (s.host.map Prod.fst).Nodup

/-- What holds of the request and of each call. -/
structure Inv (s : State) : Prop extends Shared s where
  writer : ∀ i w, s.writers[i]? = some w → Local s i w

theorem inv_start (wAble : Bool) (length : ℕ) (buf : ℕ → UInt8) :
    Inv (start wAble length buf) where
  able h := absurd h Bool.false_ne_true
  owner h := absurd h Bool.false_ne_true
  unsent h := absurd h Bool.false_ne_true
  sent h := absurd h Bool.false_ne_true
  payload _ _ h := absurd h List.not_mem_nil
  once := List.nodup_nil
  writer _ _ h := by simp [start] at h

theorem Inv.exact {s : State} (h : Inv s) : Exact s where
  payload := h.payload
  once := h.once
  returned i v hi hv := by
    obtain ⟨w, hw, hpc⟩ := hi
    have hlocal := h.writer i w hw
    simp only [Local, hpc] at hlocal
    exact hlocal hv

/-! ## What a change of the request does to the others -/

/-- What holds of a call still does when the request changes, but for what the call has put
into it, and what it waits for. -/
theorem Local.mono {s t : State} {i : ℕ} {w : Writer} (h : Local s i w)
    (hfresh : Fresh s i → Fresh t i)
    (hlen : w.pc.sized = true → t.length = s.length)
    (hbuf : ∀ x, w.pc.filled x = true → t.buf x = s.buf x)
    (hwait : w.pc = .wait → Waits s i → Waits t i)
    (hret : w.pc = .ret → s.queued = false → Shown s i s.actual →
      t.queued = false ∧ Shown t i t.actual)
    (hshown : ∀ n, Shown s i n → Shown t i n) : Local t i w := by
  unfold Local at h ⊢
  cases hpc : w.pc <;> simp only [hpc] at h ⊢ hlen hbuf
  case clear => exact hfresh h
  case setLen => exact hfresh h
  case fill => exact ⟨hfresh h.1, (hlen rfl).trans h.2.1, fun x hx => absurd hx (Nat.not_lt_zero x)⟩
  case copy n k =>
    obtain ⟨hf, rfl, hk, hwant, hsame⟩ := h
    refine ⟨hfresh hf, (hlen rfl).symm, hk, (hlen rfl).trans hwant, fun x hx => ?_⟩
    exact (hbuf x (decide_eq_true hx)).trans (hsame x hx)
  case queue =>
    obtain ⟨hf, hwant, hsame⟩ := h
    refine ⟨hfresh hf, (hlen rfl).trans hwant, fun x hx => ?_⟩
    exact (hbuf x rfl).trans (hsame x (hlen rfl ▸ hx))
  case wait => exact hwait hpc h
  case ret => exact hret hpc h.1 h.2
  case returned v =>
    intro hv
    obtain ⟨n, hn, hs⟩ := h hv
    exact ⟨n, hn, hshown n hs⟩

/-- The move of a call changes none of its arguments. -/
theorem exists_move {s : State} {i j : ℕ} {w : Writer} {pc : Pc} {P : Writer → Prop}
    (hw : s.writers[i]? = some w) (hP : ∀ v pc, P v → P { v with pc := pc })
    (h : ∃ v ∈ s.writers[j]?, P v) : ∃ v ∈ (s.move i w pc).writers[j]?, P v := by
  obtain ⟨v, hv, hPv⟩ := h
  rcases eq_or_ne j i with rfl | hji
  · obtain rfl := Option.some.inj (hw.symm.trans hv)
    exact ⟨_, Calls.set_self hw, hP _ pc hPv⟩
  · exact ⟨v, Calls.set_other hji hv, hPv⟩

/-- A step of call `i`, after which the request is as it should be, and the others are where
they were. -/
theorem Shared.move {s : State} (h : Shared s) {i : ℕ} {w : Writer} {pc : Pc}
    (hw : s.writers[i]? = some w) (hi : Local s i { w with pc := pc })
    (hj : ∀ j v, j ≠ i → s.writers[j]? = some v → Local s j v) : Inv (s.move i w pc) where
  able := h.able
  owner hq := by
    have := h.owner hq
    simpa [State.move] using this
  unsent hq hsent :=
    ⟨(h.unsent hq hsent).1, exists_move hw (fun _ _ hv => hv) (h.unsent hq hsent).2⟩
  sent := h.sent
  payload j data hdata := exists_move hw (fun _ _ hv => hv) (h.payload j data hdata)
  once := h.once
  writer j v hv := by
    rcases Calls.set_cases hv with ⟨rfl, rfl⟩ | ⟨hji, hv⟩
    · exact hi
    · exact hj j v hji hv

/-- A step that leaves the request alone. -/
theorem Inv.move {s : State} (h : Inv s) {i : ℕ} {w : Writer} {pc : Pc}
    (hw : s.writers[i]? = some w) (hi : Local s i { w with pc := pc }) : Inv (s.move i w pc) :=
  h.toShared.move hw hi fun j v _ => h.writer j v

theorem Inv.at {s : State} (h : Inv s) {i : ℕ} {w : Writer} {pc : Pc}
    (hw : s.writers[i]? = some w) (hpc : w.pc = pc) : Local s i { w with pc := pc } := by
  subst hpc
  exact h.writer i w hw

/-! ## Steps of a call -/

theorem taken_of {s : State} {p : Pc → Bool} {i j : ℕ} {v : Writer} (hji : j ≠ i)
    (hv : s.writers[j]? = some v) (hp : p v.pc = true) : Taken s p i := by
  obtain ⟨hj, -⟩ := List.getElem?_eq_some_iff.mp hv
  exact Or.inr ⟨j, hj, hji, v, hv, hp⟩

/-- Clearing the flag, while nobody is to see it. -/
theorem inv_clear {s : State} (h : Inv s) {i : ℕ} {w : Writer} (hw : s.writers[i]? = some w)
    (hpc : w.pc = .clear) (hok : s.wAble = true → ¬AnyAt s .wait) :
    Inv ({ s with wAble := false }.move i w .setLen) := by
  refine Shared.move (s := { s with wAble := false })
    ⟨fun hq => ⟨rfl, (h.able hq).2⟩, h.owner, h.unsent, h.sent, h.payload, h.once⟩ hw (h.at hw hpc)
    fun j v _ hv => ?_
  refine (h.writer j v hv).mono id (fun _ => rfl) (fun _ _ => rfl) (fun hwait hj => ?_)
    (fun _ hq hs => ⟨hq, hs⟩) fun _ => id
  rcases hj with hj | ⟨hq, hable | hpos, hs⟩
  · exact Or.inl hj
  · exact absurd ⟨v, List.mem_of_getElem? hv, hwait⟩ (hok hable)
  · exact Or.inr ⟨hq, Or.inr hpos, hs⟩

/-- Setting the length, which no other call depends on, or which stays as it is. -/
theorem inv_setLen {s : State} (h : Inv s) {i : ℕ} {w : Writer} (hw : s.writers[i]? = some w)
    (hpc : w.pc = .setLen) (hok : Taken s Pc.sized i → s.length = w.want) :
    Inv ({ s with length := w.want }.move i w .fill) := by
  have hfresh : Fresh s i := h.at hw hpc
  have hnil : ∀ {t : State}, ∀ x < 0, t.buf x = w.buf x := fun x hx => absurd hx x.not_lt_zero
  by_cases htaken : Taken s Pc.sized i
  · rw [← hok htaken]
    exact h.move hw ⟨hfresh, hok htaken, hnil⟩
  · refine Shared.move (s := { s with length := w.want }) ⟨h.able, h.owner,
      fun hq hs => absurd (Or.inl ⟨hq, hs⟩) htaken, h.sent, h.payload, h.once⟩ hw
      ⟨hfresh, rfl, hnil⟩ fun j v hji hv => ?_
    exact (h.writer j v hv).mono id (fun hp => absurd (taken_of hji hv hp) htaken)
      (fun _ _ => rfl) (fun _ => id) (fun _ hq hs => ⟨hq, hs⟩) fun _ => id

/-- A change of the buffer from `k` on, where no other call depends on it. -/
theorem inv_buf {s : State} (h : Inv s) {i k : ℕ} {w : Writer} {pc : Pc} {buf : ℕ → UInt8}
    (hw : s.writers[i]? = some w) (hsame : ∀ x < k, buf x = s.buf x)
    (hfree : ¬Taken s (Pc.filled k) i) (hi : Local { s with buf := buf } i { w with pc := pc }) :
    Inv ({ s with buf := buf }.move i w pc) := by
  refine Shared.move (s := { s with buf := buf }) ⟨h.able, h.owner,
    fun hq hs => absurd (Or.inl ⟨hq, hs⟩) hfree, h.sent, h.payload, h.once⟩ hw hi
    fun j v hji hv => ?_
  refine (h.writer j v hv).mono id (fun _ => rfl) (fun x hx => ?_) (fun _ => id)
    (fun _ hq hs => ⟨hq, hs⟩) fun _ => id
  refine hsame x (Nat.lt_of_not_le fun hkx => hfree (taken_of hji hv ?_))
  cases hp : v.pc <;> simp [hp, Pc.filled] at hx ⊢
  omega

/-- One more byte. -/
theorem inv_copy {s : State} (h : Inv s) {i n k : ℕ} {w : Writer} (hw : s.writers[i]? = some w)
    (hpc : w.pc = .copy n k) (hk : k < n) (hok : Taken s (Pc.filled k) i → s.buf k = w.buf k) :
    Inv ({ s with buf := memcpy s.buf k w.buf k 1 }.move i w (.copy n (k + 1))) := by
  obtain ⟨hfresh, hn, -, hwant, hsame⟩ := h.at hw hpc
  have hnew : ∀ x < k + 1, memcpy s.buf k w.buf k 1 x = w.buf x := by
    intro x hx
    rcases Nat.lt_succ_iff_lt_or_eq.mp hx with hx | rfl
    · exact (ByteMem.memcpy_apply_of_not_mem (by omega)).trans (hsame x hx)
    · rw [ByteMem.memcpy_apply_of_mem (by omega), Nat.sub_self, Nat.add_zero]
  by_cases htaken : Taken s (Pc.filled k) i
  · have hbuf : memcpy s.buf k w.buf k 1 = s.buf := by
      ext x
      by_cases hx : k ≤ x ∧ x < k + 1
      · obtain rfl : x = k := by omega
        rw [hnew x hx.2, hok htaken]
      · rw [ByteMem.memcpy_apply_of_not_mem hx]
    rw [hbuf] at hnew ⊢
    exact h.move hw ⟨hfresh, hn, hk, hwant, hnew⟩
  · exact inv_buf h hw (fun x hx => ByteMem.memcpy_apply_of_not_mem (by omega)) htaken
      ⟨hfresh, hn, hk, hwant, hnew⟩

/-- A fault, which clears what is left to copy. -/
theorem inv_fault {s : State} (h : Inv s) {i n k : ℕ} {w : Writer} (hw : s.writers[i]? = some w)
    (hok : Taken s (Pc.filled k) i → ∀ x < n, k ≤ x → s.buf x = 0) :
    Inv ({ s with buf := memset s.buf k 0 (n - k) }.move i w (.returned (-efault))) := by
  by_cases htaken : Taken s (Pc.filled k) i
  · have hbuf : memset s.buf k 0 (n - k) = s.buf := by
      ext x
      by_cases hx : k ≤ x ∧ x < k + (n - k)
      · rw [ByteMem.memset_apply_of_mem hx, hok htaken x (by omega) hx.1]
      · exact congrArg _ (ByteMem.memcpy_apply_of_not_mem hx)
    rw [hbuf]
    exact h.move hw fun hneg => absurd hneg (by decide)
  · exact inv_buf h hw (fun x hx => ByteMem.memcpy_apply_of_not_mem (by omega)) htaken
      fun hneg => absurd hneg (by decide)

/-- Queuing the request, which holds the payload of the call. -/
theorem inv_queue {s : State} (h : Inv s) {i : ℕ} {w : Writer} (hw : s.writers[i]? = some w)
    (hpc : w.pc = .queue) (hfree : s.queued = false) (hable : s.wAble = false)
    (hback : s.callbacks = 0) (hret : ¬AnyAt s .ret) :
    Inv ({ s with queued := true, sent := none, actual := 0, owner := i }.move i w .wait) := by
  obtain ⟨hfresh, hfilled⟩ := h.at hw hpc
  obtain ⟨hi, -⟩ := List.getElem?_eq_some_iff.mp hw
  refine Shared.move (s := { s with queued := true, sent := none, actual := 0, owner := i })
    ⟨fun _ => ⟨hable, hback⟩, fun _ => hi, fun _ _ => ⟨hfresh.1, w, hw, hfilled⟩,
      fun _ _ => (nomatch ·), h.payload, h.once⟩ hw (Or.inl ⟨rfl, rfl⟩) fun j v hji hv => ?_
  refine (h.writer j v hv).mono (fun hf => ⟨hf.1, fun _ => hji.symm⟩) (fun _ => rfl)
    (fun _ _ => rfl) (fun _ hj => ?_) (fun hp => ?_) fun _ => id
  · rcases hj with ⟨hq, -⟩ | ⟨-, hb | hpos, -⟩
    · exact absurd (hfree.symm.trans hq) Bool.false_ne_true
    · exact absurd (hable.symm.trans hb) Bool.false_ne_true
    · exact absurd hback (Nat.ne_of_gt hpos)
  · exact absurd ⟨v, List.mem_of_getElem? hv, hp⟩ hret

/-- A new call. -/
theorem inv_call {s : State} (h : Inv s) (buf : ℕ → UInt8) (count : ℕ) :
    Inv { s with writers := s.writers ++ [⟨buf, count, .clear⟩] } where
  able := h.able
  owner hq := by
    have := h.owner hq
    simp only [List.length_append, List.length_singleton]
    omega
  unsent hq hsent := by
    obtain ⟨hfresh, w, hw, hfilled⟩ := h.unsent hq hsent
    exact ⟨hfresh, w, Calls.append_old hw, hfilled⟩
  sent := h.sent
  payload j data hdata := by
    obtain ⟨w, hw, hpayload⟩ := h.payload j data hdata
    exact ⟨w, Calls.append_old hw, hpayload⟩
  once := h.once
  writer j v hv := by
    rcases Calls.append_cases hv with ⟨rfl, rfl⟩ | hv
    · refine ⟨fun hmem => ?_, fun hq => Nat.ne_of_lt (h.owner hq)⟩
      obtain ⟨⟨k, data⟩, hdata, rfl⟩ := List.mem_map.mp hmem
      obtain ⟨w, hw, -⟩ := h.payload _ _ hdata
      obtain ⟨hlt, -⟩ := List.getElem?_eq_some_iff.mp hw
      exact absurd hlt (Nat.lt_irrefl _)
    · exact h.writer j v hv

/-! ## Steps of the controller -/

/-- The request goes out, with the payload of its call. -/
theorem inv_transmit {s : State} (h : Inv s) (hq : s.queued = true) (hsent : s.sent = none) :
    Inv { s with sent := some s.length, host := s.host ++ [(s.owner, bytes s.buf s.length)] } where
  able := h.able
  owner := h.owner
  unsent _ hs := nomatch hs
  sent _ n hn := by
    obtain rfl := Option.some.inj hn
    exact ⟨_, List.mem_append_right _ (List.mem_singleton.mpr rfl), bytes_length s.buf s.length⟩
  payload i data hdata := by
    rcases List.mem_append.mp hdata with hdata | hdata
    · exact h.payload i data hdata
    · obtain ⟨-, w, hw, hlen, hsame⟩ := h.unsent hq hsent
      obtain ⟨rfl, rfl⟩ := Prod.mk.inj (List.mem_singleton.mp hdata)
      exact ⟨w, hw, (bytes_congr hsame).trans (congrArg (bytes w.buf) hlen)⟩
  once := by
    rw [List.map_append, List.map_singleton]
    exact h.once.append (List.nodup_singleton _) (by simpa using (h.unsent hq hsent).1)
  writer i w hw := by
    have hshown : ∀ n, Shown s i n → ∃ data,
        (i, data) ∈ s.host ++ [(s.owner, bytes s.buf s.length)] ∧ data.length = n :=
      fun n ⟨data, hdata, hn⟩ => ⟨data, List.mem_append_left _ hdata, hn⟩
    refine (h.writer i w hw).mono (fun hf => ⟨?_, hf.2⟩) (fun _ => rfl) (fun _ _ => rfl)
      (fun _ => Or.imp id fun hj => ⟨hj.1, hj.2.1, hshown _ hj.2.2⟩)
      (fun _ hq hs => ⟨hq, hshown _ hs⟩) hshown
    rw [List.map_append, List.map_singleton, List.mem_append, List.mem_singleton]
    rintro (hi | hi)
    · exact hf.1 hi
    · exact hf.2 hq hi.symm

/-- The request leaves the queue; who waits for it has been sent all of the reported length. -/
theorem inv_giveback {s : State} (h : Inv s) {actual : ℕ} (hq : s.queued = true)
    (hok : Expected s actual) : Inv (giveback actual s) where
  able hset := absurd hset Bool.false_ne_true
  owner hset := absurd hset Bool.false_ne_true
  unsent hset := absurd hset Bool.false_ne_true
  sent hset := absurd hset Bool.false_ne_true
  payload := h.payload
  once := h.once
  writer i w hw := by
    refine (h.writer i w hw).mono (fun hf => ⟨hf.1, fun hset => absurd hset Bool.false_ne_true⟩)
      (fun _ => rfl) (fun _ _ => rfl)
      (fun hp hi => Or.inr ⟨rfl, Or.inr (Nat.succ_pos _), ?_⟩)
      (fun _ hfree => absurd (hfree.symm.trans hq) Bool.false_ne_true) fun _ => id
    have hsent := hok ⟨w, List.mem_of_getElem? hw, hp⟩
    rcases hi with ⟨-, rfl⟩ | ⟨hfree, -⟩
    · exact h.sent hq actual hsent
    · exact absurd (hfree.symm.trans hq) Bool.false_ne_true

/-- `g_char_complete` runs, with the request off the queue. -/
theorem inv_callback {s : State} (h : Inv s) (hpos : 0 < s.callbacks) :
    Inv (gCharComplete s) where
  able hq := absurd (h.able hq).2 (Nat.ne_of_gt hpos)
  owner := h.owner
  unsent := h.unsent
  sent := h.sent
  payload := h.payload
  once := h.once
  writer i w hw :=
    (h.writer i w hw).mono id (fun _ => rfl) (fun _ _ => rfl)
      (fun _ => Or.imp_right fun hj => ⟨hj.1, Or.inl rfl, hj.2.2⟩) (fun _ hq hs => ⟨hq, hs⟩)
      fun _ => id

/-! ## Runs -/

theorem stepAt_eq {s s' : State} {i : ℕ} {pc new : Pc} (h : s.stepAt i pc new = some s') :
    ∃ w, s.writers[i]? = some w ∧ w.pc = pc ∧ s' = s.move i w new := by
  obtain ⟨w, hw, h⟩ := Option.bind_eq_some_iff.mp h
  split at h
  · exact ⟨w, hw, ‹_›, (Option.some.inj h).symm⟩
  · cases h

theorem inv_next {s s' : State} (h : Inv s) {i : ℕ} {w : Writer} (hw : s.writers[i]? = some w)
    (hstep : gCharWrite s i w = some s') (hok : UndisturbedAt s i w) : Inv s' := by
  unfold gCharWrite at hstep
  unfold UndisturbedAt at hok
  cases hpc : w.pc <;> rw [hpc] at hstep hok
  case clear =>
    obtain rfl := Option.some.inj hstep
    exact inv_clear h hw hpc hok
  case setLen =>
    obtain rfl := Option.some.inj hstep
    exact inv_setLen h hw hpc hok
  case fill =>
    obtain rfl := Option.some.inj hstep
    obtain ⟨hfresh, hfilled⟩ := h.at hw hpc
    exact h.move hw ⟨hfresh, rfl, Nat.zero_le _, hfilled⟩
  case copy n k =>
    obtain rfl := Option.some.inj hstep
    split
    · exact inv_copy h hw hpc ‹_› (hok ‹_›)
    · obtain ⟨hfresh, rfl, hk, hfilled⟩ := h.at hw hpc
      obtain rfl : k = s.length := by omega
      exact h.move hw ⟨hfresh, hfilled⟩
  case queue =>
    obtain rfl := Option.some.inj hstep
    cases hq : s.queued
    · obtain ⟨hable, hback, hret⟩ := hok hq
      exact inv_queue h hw hpc hq hable hback hret
    · exact h.move hw fun hneg => absurd hneg (by decide)
  case wait =>
    simp only at hstep
    split at hstep
    · obtain rfl := Option.some.inj hstep
      refine h.move hw ?_
      rcases h.at hw hpc with ⟨hq, -⟩ | ⟨hq, -, hs⟩
      · exact absurd ((h.able hq).1.symm.trans ‹_›) Bool.false_ne_true
      · exact ⟨hq, hs⟩
    · cases hstep
  case ret =>
    obtain rfl := Option.some.inj hstep
    exact h.move hw fun _ => ⟨s.actual, rfl, (h.at hw hpc).2⟩
  case dequeue => cases hstep
  case returned => cases hstep

/-- What one step preserves. -/
theorem inv_step {s s' : State} {a : Action} (h : Inv s) (hstep : step s a = some s')
    (hok : Undisturbed s a s') : Inv s' := by
  cases a with
  | call buf count =>
    obtain rfl := Option.some.inj hstep
    exact inv_call h buf count
  | next i =>
    obtain ⟨w, hw, hstep⟩ := Option.bind_eq_some_iff.mp hstep
    exact inv_next h hw hstep (hok w hw)
  | refuse i err =>
    obtain ⟨w, hw, -, rfl⟩ := stepAt_eq hstep
    exact h.move hw fun hneg => by omega
  | signal i =>
    simp only [step] at hstep
    split at hstep
    · cases hstep
    · obtain ⟨w, hw, -, rfl⟩ := stepAt_eq hstep
      exact h.move hw trivial
  | fault i =>
    obtain ⟨w, hw, hstep⟩ := Option.bind_eq_some_iff.mp hstep
    have hfault := hok w hw
    unfold UndisturbedFault at hfault
    split at hstep
    · rename_i hpc
      rw [hpc] at hfault
      obtain rfl := Option.some.inj hstep
      exact inv_fault h hw hfault
    · cases hstep
  | dequeue i actual =>
    have hinv : Inv (usbEpDequeue actual s) := by
      unfold usbEpDequeue
      split
      · exact inv_giveback h ‹_› (hok ‹_›)
      · exact h
    obtain ⟨w, hw, -, rfl⟩ := stepAt_eq hstep
    exact hinv.move hw fun hneg => absurd hneg (by decide)
  | transmit =>
    simp only [step] at hstep
    split at hstep
    · obtain rfl := Option.some.inj hstep
      exact inv_transmit h (And.left ‹_›) (And.right ‹_›)
    · cases hstep
  | complete ok actual =>
    simp only [step] at hstep
    split at hstep
    · obtain rfl := Option.some.inj hstep
      exact inv_giveback h (And.left ‹_›) hok
    · cases hstep
  | callback =>
    simp only [step] at hstep
    split at hstep
    · obtain rfl := Option.some.inj hstep
      exact inv_callback h ‹_›
    · cases hstep

/-- Writes are not mixed up in every run whose steps do not disturb a transfer of another
call. -/
theorem write_exact (wAble : Bool) (length : ℕ) (buf : ℕ → UInt8) (as : List Action)
    (hok : Transition.Always step Undisturbed (start wAble length buf) as) :
    Transition.Always step Holds (start wAble length buf) as :=
  Transition.always_imp
    (fun _ _ _ h hstep hok => ⟨inv_step h hstep hok, (inv_step h hstep hok).exact⟩)
    (inv_start wAble length buf) hok

/-- Three calls that overlap : the second fills the request when the controller has sent the
first one's, which has yet to read the length, and the third finds the request queued. -/
theorem write_exact_overlapping : Transition.Always step Holds (start false 0 fun _ => 0)
    [.call (fun _ => 7) 1, .next 0, .next 0, .next 0, .next 0, .next 0, .next 0,
      .call (fun _ => 9) 2, .transmit, .complete true 1, .callback, .next 0, .next 1, .next 1,
      .next 1, .next 1, .next 1, .next 1, .next 0, .next 1, .transmit, .call (fun _ => 5) 1,
      .next 2, .next 2, .next 2, .next 2, .next 2, .next 2, .complete true 2, .callback, .next 1,
      .next 1] :=
  write_exact false 0 (fun _ => 0) _ (by decide)

/-- A call of 2 bytes has queued the request, and a second one of 1 byte sets the length before
the controller sends it : the host sees a transfer that is the payload of neither, and the first
call returns 1. And a call queues the request before `g_char_complete` has run for the one
before : that one, whose transfer has the length 1, returns 0. -/
theorem write_inexact :
    (∃ s, Transition.run step (start false 0 fun _ => 0)
        [.call (fun _ => 7) 2, .next 0, .next 0, .next 0, .next 0, .next 0, .next 0, .next 0,
          .call (fun _ => 9) 1, .next 1, .next 1, .transmit, .complete true 1, .callback, .next 0,
          .next 0] = some s ∧
      s.host = [(0, [7])] ∧ s.writers.map Writer.payload = [[7, 7], [9]] ∧
      s.writers.map Writer.pc = [.returned 1, .fill] ∧ ¬Exact s) ∧
    ∃ s, Transition.run step (start false 0 fun _ => 0)
        [.call (fun _ => 7) 1, .next 0, .next 0, .next 0, .next 0, .next 0, .next 0, .transmit,
          .complete true 1, .call (fun _ => 9) 1, .next 1, .next 1, .next 1, .next 1, .next 1,
          .next 1, .callback, .next 0, .next 0] = some s ∧
      s.host = [(0, [7])] ∧ s.writers.map Writer.pc = [.returned 0, .wait] ∧ ¬Exact s := by
  refine ⟨⟨_, rfl, rfl, rfl, rfl, fun h => ?_⟩, ⟨_, rfl, rfl, rfl, fun h => ?_⟩⟩
  · obtain ⟨w, hw, hdata⟩ := h.payload 0 [7] (List.mem_singleton.mpr rfl)
    obtain rfl := Option.some.inj hw
    exact absurd hdata (by decide)
  · obtain ⟨n, hn, data, hdata, hlen⟩ := h.returned 0 0 ⟨_, rfl, rfl⟩ (Int.le_refl 0)
    obtain rfl := (Prod.mk.inj (List.mem_singleton.mp hdata)).2
    rw [← hlen] at hn
    exact absurd hn (by decide)

end GCharWrite

end LinuxDriverKb
