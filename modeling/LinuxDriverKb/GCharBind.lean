import LinuxDriverKb.Lib.Ledger
import LinuxDriverKb.Lib.Transition
import Mathlib.Algebra.Ring.Int.Defs

/-!
# The private data of `g_char.c`

`g_char_bind_config` allocates the private structure and hands its function to the composite
core; from then on the core calls `g_char_f_unbind` on it, which frees it. If `misc_register`
fails after that, the code frees the structure itself, and the core unbinds the function that
is still linked.

`bind_iff` : over any sequence of binds and unbinds the structure is freed once and not used
afterwards, and the misc device deregistered once for each registration, if and only if
`misc_register` never fails after `usb_add_function`.
-/

set_option autoImplicit false

namespace LinuxDriverKb

namespace GCharBind

open Ledger (Op)

/-! ## The driver and the composite core -/

/-- `-ENOMEM`. -/
def enomem : ℤ := -12

/-- `-ENODEV`. -/
def enodev : ℤ := -19

/-- The `n`-th private structure, and the registration of `g_char_misc`. -/
inductive Resource
  | priv (n : ℕ)
  | misc
  deriving DecidableEq

/-- How the steps of a bind end : an interface id or an error, the endpoints, and
`misc_register`. -/
structure Outcome where
  kzalloc : Bool
  usbInterfaceId : ℤ
  inEp : Bool
  outEp : Bool
  miscRegister : ℤ
  deriving DecidableEq

/-- `g_char_f_bind`. -/
def gCharFBind (o : Outcome) : ℤ :=
  if o.usbInterfaceId < 0 then o.usbInterfaceId
  else if o.inEp = false then enodev
  else if o.outEp = false then enodev
  else 0

/-- What a call returns, what it does with the resources, and the functions linked to the
configuration after it. -/
structure Result where
  ret : ℤ
  ops : List (Op Resource)
  linked : List ℕ

/-- `usb_add_function` : links the function, and unlinks it again if its bind fails. -/
def usbAddFunction (n : ℕ) (o : Outcome) : Result :=
  if gCharFBind o < 0 then ⟨gCharFBind o, [.use (.priv n)], []⟩
  else ⟨0, [.use (.priv n)], [n]⟩

/-- `g_char_f_unbind`. -/
def gCharFUnbind (n : ℕ) : List (Op Resource) :=
  [.release .misc, .release (.priv n)]

/-- `g_char_bind_config`. -/
def gCharBindConfig (n : ℕ) (o : Outcome) : Result :=
  if o.kzalloc = false then ⟨enomem, [], []⟩
  else
    let add := usbAddFunction n o
    if add.ret ≠ 0 then ⟨add.ret, .acquire (.priv n) :: add.ops ++ [.release (.priv n)], add.linked⟩
    else if o.miscRegister ≠ 0 then
      ⟨o.miscRegister, .acquire (.priv n) :: add.ops ++ [.release (.priv n)], add.linked⟩
    else
      ⟨0, .acquire (.priv n) :: add.ops ++ [.acquire .misc, .use (.priv n)], add.linked⟩

/-- The core unlinks and unbinds the linked functions. -/
def unbindAll (linked : List ℕ) : List (Op Resource) :=
  linked.flatMap fun n => .use (.priv n) :: gCharFUnbind n

/-- `usb_add_config` : the bind, and after an error the unbind of what is still linked. -/
def usbAddConfig (n : ℕ) (o : Outcome) : Result :=
  let bind := gCharBindConfig n o
  if bind.ret < 0 then ⟨bind.ret, bind.ops ++ unbindAll bind.linked, []⟩ else bind

/-- The functions linked to the configuration, the operations so far, and the number of the
next structure. -/
structure State where
  linked : List ℕ
  log : List (Op Resource)
  next : ℕ

/-- No configuration is bound. -/
def start : State :=
  ⟨[], [], 0⟩

/-- A bind attempt of a configuration that is not bound, and the unbind of one that is. -/
inductive Action
  | bind (o : Outcome)
  | unbind

/-- A bind or an unbind of the configuration. -/
def step (s : State) : Action → Option State
  | .bind o =>
    if s.linked = [] then
      let r := usbAddConfig s.next o
      some ⟨r.linked, s.log ++ r.ops, s.next + 1⟩
    else none
  | .unbind =>
    if s.linked = [] then none else some { s with linked := [], log := s.log ++ unbindAll s.linked }

/-! ## What a run should do -/

/-- The live resources. -/
def State.live (s : State) : List Resource :=
  Ledger.exec [] s.log

/-- Nothing is freed, used or deregistered but what is allocated or registered, each as often
as it was but for what is live, and live are the linked structure and its registration. -/
structure FreedOnce (s' : State) : Prop where
  valid : Ledger.Valid [] s'.log
  once : ∀ r, s'.log.count (.acquire r) = s'.log.count (.release r) + s'.live.count r
  live : s'.live.Perm (s'.linked.flatMap fun n => [.misc, .priv n])

/-- `misc_register` does not fail after `usb_add_function`. -/
def Registers (_ : State) (a : Action) (_ : State) : Prop :=
  match a with
  | .bind o => o.kzalloc = true → 0 ≤ gCharFBind o → o.miscRegister = 0
  | .unbind => True

/-! ## One bind -/

/-- How `usb_add_config` ends, and what it does : no memory; no function; no misc device, with
the function unbound after its structure is freed, or left linked; or a bound function. -/
theorem usbAddConfig_cases (n : ℕ) (o : Outcome) :
    (o.kzalloc = false ∧ usbAddConfig n o = ⟨enomem, [], []⟩) ∨
      (gCharFBind o < 0 ∧ usbAddConfig n o =
        ⟨gCharFBind o, [.acquire (.priv n), .use (.priv n), .release (.priv n)], []⟩) ∨
      ((o.kzalloc = true ∧ 0 ≤ gCharFBind o ∧ o.miscRegister ≠ 0) ∧
        ∃ ops linked, usbAddConfig n o = ⟨o.miscRegister,
          [.acquire (.priv n), .use (.priv n), .release (.priv n)] ++ ops, linked⟩ ∧
          (ops = unbindAll [n] ∨ linked = [n] ∧ ops = [])) ∨
      (o.miscRegister = 0 ∧ usbAddConfig n o =
        ⟨0, [.acquire (.priv n), .use (.priv n), .acquire .misc, .use (.priv n)], [n]⟩) := by
  unfold usbAddConfig gCharBindConfig usbAddFunction
  by_cases hk : o.kzalloc = false
  · exact .inl ⟨hk, by simp [hk, enomem, unbindAll]⟩
  by_cases hf : gCharFBind o < 0
  · exact .inr (.inl ⟨hf, by simp [hk, hf, Int.ne_of_lt hf, unbindAll]⟩)
  by_cases hm : o.miscRegister = 0
  · exact .inr (.inr (.inr ⟨hm, by simp [hk, hf, hm]⟩))
  refine .inr (.inr (.inl ⟨⟨eq_true_of_ne_false hk, Int.not_lt.mp hf, hm⟩, ?_⟩))
  by_cases hneg : o.miscRegister < 0
  · exact ⟨unbindAll [n], [], by simp [hk, hf, hm, hneg], .inl rfl⟩
  · exact ⟨[], [n], by simp [hk, hf, hm, hneg], .inr ⟨rfl, rfl⟩⟩

variable {s s' : State}

/-- At most one function is linked. -/
structure Inv (s : State) : Prop where
  freed : FreedOnce s
  one : s.linked = [] ∨ ∃ n, s.linked = [n]

theorem freedOnce_of_valid (hvalid : Ledger.Valid [] s.log)
    (hlive : s.live.Perm (s.linked.flatMap fun n => [.misc, .priv n])) : FreedOnce s :=
  ⟨hvalid, fun r => by simpa [State.live] using Ledger.count_acquire hvalid r, hlive⟩

theorem inv_start : Inv start :=
  ⟨freedOnce_of_valid True.intro .rfl, .inl rfl⟩

/-- The operations of a step from a state whose log is valid. -/
theorem freedOnce_append (h : FreedOnce s) {linked : List ℕ} {ops : List (Op Resource)}
    {next : ℕ} (hvalid : Ledger.Valid s.live ops)
    (hlive : (Ledger.exec s.live ops).Perm (linked.flatMap fun n => [.misc, .priv n])) :
    FreedOnce ⟨linked, s.log ++ ops, next⟩ := by
  refine freedOnce_of_valid (Ledger.valid_append.mpr ⟨h.valid, hvalid⟩) ?_
  rw [State.live, Ledger.exec_append]
  exact hlive

theorem live_of_unlinked (h : FreedOnce s) (hlinked : s.linked = []) : s.live = [] := by
  have hlive := h.live
  rw [hlinked] at hlive
  exact hlive.eq_nil

/-- After `misc_register` has failed the structure is used freed, or stays linked freed. -/
theorem not_freedOnce (h : FreedOnce s) (hlinked : s.linked = []) (next : ℕ) {n : ℕ}
    {ops : List (Op Resource)} {linked : List ℕ}
    (hops : ops = unbindAll [n] ∨ linked = [n] ∧ ops = []) :
    ¬FreedOnce ⟨linked, s.log ++
      ([.acquire (.priv n), .use (.priv n), .release (.priv n)] ++ ops), next⟩ := by
  intro hfreed
  have hempty := live_of_unlinked h hlinked
  rcases hops with rfl | ⟨rfl, rfl⟩
  · have hvalid := (Ledger.valid_append.mp hfreed.valid).2
    rw [State.live] at hempty
    rw [hempty] at hvalid
    simp [Ledger.Valid, Ledger.Allowed, Ledger.apply, unbindAll] at hvalid
  · have hlength := hfreed.live.length_eq
    rw [State.live] at hempty
    simp [State.live, Ledger.exec_append, hempty, Ledger.apply] at hlength

/-- A bind frees its structure once, if it needs to, exactly if `misc_register` does not fail
after `usb_add_function`. -/
theorem freedOnce_bind (h : Inv s) {o : Outcome} (hstep : step s (.bind o) = some s') :
    (FreedOnce s' ↔ Registers s (.bind o) s') ∧ (FreedOnce s' → Inv s') := by
  simp only [step] at hstep
  split_ifs at hstep with hlinked
  have hempty := live_of_unlinked h.freed hlinked
  rcases usbAddConfig_cases s.next o with ⟨hk, hr⟩ | ⟨hf, hr⟩ | ⟨hbad, ops, linked, hr, hops⟩ |
    ⟨hm, hr⟩
  · obtain rfl := Option.some.inj hstep
    rw [hr]
    have hfreed : FreedOnce ⟨[], s.log ++ [], s.next + 1⟩ :=
      freedOnce_append h.freed True.intro (by simp [hempty])
    exact ⟨iff_of_true hfreed fun hk' => by simp [hk] at hk', fun hf => ⟨hf, .inl rfl⟩⟩
  · obtain rfl := Option.some.inj hstep
    rw [hr]
    refine ⟨iff_of_true ?_ fun _ hf' => absurd hf (Int.not_lt.mpr hf'), fun hf => ⟨hf, .inl rfl⟩⟩
    refine freedOnce_append h.freed ?_ ?_
    · simp [hempty, Ledger.Valid, Ledger.Allowed, Ledger.apply]
    · simp [hempty, Ledger.apply]
  · obtain rfl := Option.some.inj hstep
    rw [hr]
    have hno := not_freedOnce h.freed hlinked (s.next + 1) hops
    exact ⟨iff_of_false hno fun hreg => hbad.2.2 (hreg hbad.1 hbad.2.1), fun hf => absurd hf hno⟩
  · obtain rfl := Option.some.inj hstep
    rw [hr]
    refine ⟨iff_of_true ?_ fun _ _ => hm, fun hf => ⟨hf, .inr ⟨s.next, rfl⟩⟩⟩
    refine freedOnce_append h.freed ?_ ?_
    · simp [hempty, Ledger.Valid, Ledger.Allowed, Ledger.apply]
    · simp [hempty, Ledger.apply]

/-- The unbind of a bound configuration frees the structure. -/
theorem freedOnce_unbind (h : Inv s) (hstep : step s .unbind = some s') : Inv s' := by
  simp only [step] at hstep
  split_ifs at hstep with hlinked
  obtain rfl := Option.some.inj hstep
  obtain ⟨n, hn⟩ := h.one.resolve_left hlinked
  have hlive : s.live.Perm [.misc, .priv n] := by simpa [hn] using h.freed.live
  rw [hn]
  refine ⟨freedOnce_append h.freed ?_ ?_, .inl rfl⟩
  · rw [Ledger.valid_perm hlive]
    simp [Ledger.Valid, Ledger.Allowed, Ledger.apply, unbindAll, gCharFUnbind]
  · refine (Ledger.exec_perm hlive _).trans ?_
    simp [Ledger.apply, unbindAll, gCharFUnbind]

/-! ## Runs -/

/-- In every sequence of bind attempts and unbinds, whatever fails : each structure is freed
once and not used or freed after it, and the misc device is deregistered once for each
registration and only while it is registered, if and only if `misc_register` never fails
after `usb_add_function` has succeeded. -/
theorem bind_iff (as : List Action) :
    Transition.Always step (fun _ _ s' => FreedOnce s') start as ↔
      Transition.Always step Registers start as := by
  have hsteps : ∀ s a s', Inv s → step s a = some s' →
      (FreedOnce s' ↔ Registers s a s') ∧ (FreedOnce s' → Inv s') := by
    intro s a s' h hstep
    cases a with
    | bind o => exact freedOnce_bind h hstep
    | unbind =>
      have hinv := freedOnce_unbind h hstep
      exact ⟨iff_of_true hinv.freed True.intro, fun _ => hinv⟩
  exact Transition.always_congr (I := Inv) (fun s a s' h hstep => (hsteps s a s' h hstep).1)
    (fun s a s' h hstep hfreed => (hsteps s a s' h hstep).2 hfreed) inv_start

/-- A bind whose `misc_register` fails : the core unbinds the function after its structure was
freed, deregisters a misc device that is not registered and frees the structure again. -/
theorem misc_fails :
    let o : Outcome := ⟨true, 0, true, true, -16⟩
    (usbAddConfig 0 o).ops =
        [.acquire (.priv 0), .use (.priv 0), .release (.priv 0), .use (.priv 0),
          .release .misc, .release (.priv 0)] ∧
      ¬Transition.Always step (fun _ _ s' => FreedOnce s') start [.bind o] := by
  refine ⟨by decide, fun h => ?_⟩
  exact absurd (h _ rfl).1.valid (by decide)

end GCharBind

end LinuxDriverKb
