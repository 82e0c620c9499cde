import Mathlib.Data.Int.Notation
import Mathlib.Tactic.SplitIfs
import LinuxDriverKb.Lib.Transition

/-!
# Endpoints and requests of `g_char.c`

The composite core enables the function with `g_char_f_set_alt`, any number of times, and
disables it with `g_char_f_disable`. Enabling takes four steps that can fail, and unwinds
with a chain of labels. When an allocation fails the return value is still that of the
endpoint enabled before, 0; and nothing ever frees the two requests of an enabled function.

`lifeCycle_iff` : the callbacks do what they should exactly if no allocation fails and no
callback comes after the one that enables the function.
-/

set_option autoImplicit false

namespace LinuxDriverKb

namespace GChar

/-! ## The driver -/

/-- What `ep->driver_data` points to. -/
inductive DriverData
  | null
  | cdev
  | priv
  deriving DecidableEq

/-- An endpoint. -/
structure Ep where
  enabled : Bool
  driverData : DriverData
  deriving DecidableEq

/-- The endpoints and request pointers of `struct f_g_char_priv`, the requests that are
allocated and not freed, and the next one to allocate. -/
structure State where
  inEp : Ep
  outEp : Ep
  inReq : Option ℕ
  outReq : Option ℕ
  live : List ℕ
  next : ℕ
  deriving DecidableEq

/-- The return value of `config_ep_by_speed` or `usb_ep_enable`. -/
inductive Ret
  | ok
  | fail (err : ℤ) (neg : err < 0)

/-- What is returned. -/
def Ret.val : Ret → ℤ
  | .ok => 0
  | .fail err _ => err

/-- How `alloc_ep_req` ends : it works, or the allocation of the request or of its buffer
fails. -/
inductive Alloc
  | ok
  | noReq
  | noBuf
  deriving DecidableEq

/-- What the calls of one `enable_g_char` return, as far as it comes to them. -/
structure Outcome where
  inConfig : Ret
  inEnable : Ret
  outConfig : Ret
  outEnable : Ret
  outReq : Alloc
  inReq : Alloc

/-- `alloc_ep_req`. -/
def allocEpReq (o : Alloc) (s : State) : Option ℕ × State :=
  match o with
  | .ok => (some s.next, { s with live := s.next :: s.live, next := s.next + 1 })
  | .noReq => (none, s)
  | .noBuf => (none, { s with next := s.next + 1 })

/-- `free_ep_req`. -/
def freeEpReq (req : ℕ) (s : State) : State :=
  { s with live := s.live.erase req }

/-- `usb_ep_disable`. -/
def usbEpDisable (ep : Ep) : Ep :=
  { ep with enabled := false }

/-- `disable_ep`. -/
def disableEp (ep : Ep) : Ep :=
  if ep.driverData ≠ .null then { usbEpDisable ep with driverData := .null } else ep

/-- `disable_g_char`. -/
def disableGChar (s : State) : State :=
  { s with inEp := disableEp s.inEp, outEp := disableEp s.outEp }

/-- `enable_endpoint`. -/
def enableEndpoint (config enable : Ret) (ep : Ep) : ℤ × Ep :=
  if config.val ≠ 0 then (config.val, ep)
  else if enable.val < 0 then (enable.val, ep)
  else (enable.val, ⟨true, .priv⟩)

/-- The code from the label `err_alloc_in` on. -/
def errAllocIn (ret : ℤ) (s : State) : ℤ × State :=
  (ret, { s with outEp := usbEpDisable s.outEp, inEp := usbEpDisable s.inEp })

/-- The code from the label `err_enable_out` on. -/
def errEnableOut (ret : ℤ) (s : State) : ℤ × State :=
  (ret, { s with inEp := usbEpDisable s.inEp })

/-- The two allocations of `enable_g_char`, and its end. -/
def allocRequests (o : Outcome) (ret : ℤ) (s : State) : ℤ × State :=
  let r := allocEpReq o.outReq s
  let s := { r.2 with outReq := r.1 }
  match r.1 with
  | none => errAllocIn ret s
  | some outReq =>
    let r := allocEpReq o.inReq s
    let s := { r.2 with inReq := r.1 }
    match r.1 with
    | none => errAllocIn ret (freeEpReq outReq s)
    | some _ => (ret, s)

/-- `enable_g_char`. -/
def enableGChar (o : Outcome) (s : State) : ℤ × State :=
  let r := enableEndpoint o.inConfig o.inEnable s.inEp
  let s := { s with inEp := r.2 }
  if r.1 < 0 then (r.1, s)
  else
    let r := enableEndpoint o.outConfig o.outEnable s.outEp
    let s := { s with outEp := r.2 }
    if r.1 < 0 then errEnableOut r.1 s else allocRequests o r.1 s

/-- `g_char_f_set_alt`. -/
def gCharFSetAlt (o : Outcome) (s : State) : ℤ × State :=
  enableGChar o (if s.inEp.driverData ≠ .null then disableGChar s else s)

/-- The callbacks of the composite core. -/
inductive Action
  | setAlt (o : Outcome)
  | disable

/-- One callback. -/
def step (s : State) : Action → Option State
  | .setAlt o => some (gCharFSetAlt o s).2
  | .disable => some (disableGChar s)

/-- After a bind that works : the endpoints are claimed, and there is no request. -/
def init : State where
  inEp := ⟨false, .cdev⟩
  outEp := ⟨false, .cdev⟩
  inReq := none
  outReq := none
  live := []
  next := 0

/-! ## What a run should do -/

/-- The function is enabled. -/
def State.Enabled (s : State) : Prop :=
  s.inEp.enabled = true ∧ s.outEp.enabled = true

instance (s : State) : Decidable s.Enabled :=
  inferInstanceAs (Decidable (_ ∧ _))

/-- The pointer is to a request that is allocated. -/
def State.PointsTo (s : State) (req : Option ℕ) : Prop :=
  ∃ r, req = some r ∧ r ∈ s.live

/-- Two requests while the function is enabled, none otherwise, and no pointer to a request
that is freed. -/
structure Owned (s : State) : Prop where
  count : s.live.length = if s.Enabled then 2 else 0
  inReq : ∀ r, s.inReq = some r → r ∈ s.live
  outReq : ∀ r, s.outReq = some r → r ∈ s.live

/-- `g_char_f_set_alt` returns 0 exactly if both endpoints are enabled and both requests are
there, and after an error both endpoints are disabled. -/
structure Returns (ret : ℤ) (s' : State) : Prop where
  zero : ret = 0 ↔ s'.Enabled ∧ s'.PointsTo s'.inReq ∧ s'.PointsTo s'.outReq
  error : ret ≠ 0 → s'.inEp.enabled = false ∧ s'.outEp.enabled = false

/-- `set_alt` returns as it should, and what is enabled is owned. -/
structure Holds (s : State) (a : Action) (s' : State) : Prop where
  setAlt : ∀ o, a = .setAlt o → Returns (gCharFSetAlt o s).1 s'
  owned : Owned s'

/-- Both endpoints can be enabled. -/
def Outcome.Enables (o : Outcome) : Prop :=
  o.inConfig.val = 0 ∧ o.inEnable.val = 0 ∧ o.outConfig.val = 0 ∧ o.outEnable.val = 0

/-- The callback finds the function not enabled, and if it comes to allocate the requests, it
can. -/
def Fresh (s : State) (a : Action) (_ : State) : Prop :=
  ¬ s.Enabled ∧ ∀ o, a = .setAlt o → o.Enables → o.outReq = .ok ∧ o.inReq = .ok

/-! ## What the code does -/

/-- The endpoints are enabled and disabled together, and an endpoint without driver data is
disabled. -/
structure Paired (s : State) : Prop where
  same : s.inEp.enabled = s.outEp.enabled
  inNull : s.inEp.driverData = .null → s.inEp.enabled = false
  outNull : s.outEp.driverData = .null → s.outEp.enabled = false

theorem enableEndpoint_ok {config enable : Ret} (hc : config.val = 0) (he : enable.val = 0)
    (ep : Ep) : enableEndpoint config enable ep = (0, ⟨true, .priv⟩) := by
  simp [enableEndpoint, hc, he]

theorem Ret.val_le (r : Ret) : r.val ≤ 0 := by
  cases r with
  | ok => exact Int.le_refl 0
  | fail err neg => exact Int.le_of_lt neg

theorem enableEndpoint_fail {config enable : Ret} (h : ¬ (config.val = 0 ∧ enable.val = 0))
    (ep : Ep) : ∃ err < 0, enableEndpoint config enable ep = (err, ep) := by
  have hc := config.val_le
  have he := enable.val_le
  by_cases hc0 : config.val = 0
  · have hneg : enable.val < 0 := by omega
    exact ⟨enable.val, hneg, by simp [enableEndpoint, hc0, hneg]⟩
  · exact ⟨config.val, by omega, by simp [enableEndpoint, hc0]⟩

/-- `enable_g_char` fails with the endpoints, unwinding what it has enabled. -/
theorem enableGChar_fail {o : Outcome} (h : ¬ o.Enables) {s : State}
    (hin : s.inEp.enabled = false) :
    ∃ err < 0, ∃ ep : Ep, ep.enabled = false ∧
      enableGChar o s = (err, { s with inEp := ep }) := by
  unfold enableGChar
  by_cases hi : o.inConfig.val = 0 ∧ o.inEnable.val = 0
  · have ho : ¬ (o.outConfig.val = 0 ∧ o.outEnable.val = 0) := fun ho =>
      h ⟨hi.1, hi.2, ho.1, ho.2⟩
    obtain ⟨err, hneg, hrun⟩ := enableEndpoint_fail ho s.outEp
    refine ⟨err, hneg, ⟨false, .priv⟩, rfl, ?_⟩
    rw [enableEndpoint_ok hi.1 hi.2]
    simp [hrun, hneg, errEnableOut, usbEpDisable]
  · obtain ⟨err, hneg, hrun⟩ := enableEndpoint_fail hi s.inEp
    exact ⟨err, hneg, s.inEp, hin, by simp [hrun, hneg]⟩

/-- With both endpoints enabled, `enable_g_char` returns 0 whatever becomes of the
requests. -/
theorem enableGChar_alloc {o : Outcome} (h : o.Enables) (s : State) :
    enableGChar o s =
      allocRequests o 0 { s with inEp := ⟨true, .priv⟩, outEp := ⟨true, .priv⟩ } := by
  obtain ⟨hic, hie, hoc, hoe⟩ := h
  simp [enableGChar, enableEndpoint_ok hic hie, enableEndpoint_ok hoc hoe]

/-- Both requests are allocated. -/
theorem allocRequests_ok {o : Outcome} (hout : o.outReq = .ok) (hin : o.inReq = .ok) (ret : ℤ)
    (s : State) : allocRequests o ret s =
      (ret, { s with outReq := some s.next, inReq := some (s.next + 1)
                     live := (s.next + 1) :: s.next :: s.live, next := s.next + 2 }) := by
  simp [allocRequests, allocEpReq, hout, hin]

/-- An allocation fails : the endpoints are disabled, the requests of before are still there,
and the return value is the same. -/
theorem allocRequests_fail {o : Outcome} (h : ¬ (o.outReq = .ok ∧ o.inReq = .ok)) (ret : ℤ)
    (s : State) : (allocRequests o ret s).1 = ret ∧
      (allocRequests o ret s).2.inEp = usbEpDisable s.inEp ∧
      (allocRequests o ret s).2.outEp = usbEpDisable s.outEp ∧
      (allocRequests o ret s).2.live = s.live := by
  cases ho : o.outReq <;> cases hi : o.inReq <;>
    simp_all [allocRequests, allocEpReq, errAllocIn, freeEpReq, usbEpDisable]

/-- `g_char_f_set_alt` begins with both endpoints disabled. -/
theorem exists_disabled {s : State} (h : Paired s) :
    ∃ q : State, (∀ o, gCharFSetAlt o s = enableGChar o q) ∧ q.inEp.enabled = false ∧
      q.outEp.enabled = false ∧ q.live = s.live ∧ q.inReq = s.inReq ∧ q.outReq = s.outReq := by
  by_cases hnull : s.inEp.driverData = .null
  · have hin := h.inNull hnull
    exact ⟨s, fun o => by simp [gCharFSetAlt, hnull], hin, h.same ▸ hin, rfl, rfl, rfl⟩
  · refine ⟨disableGChar s, fun o => by simp [gCharFSetAlt, hnull], ?_, ?_, rfl, rfl, rfl⟩
    · simp [disableGChar, disableEp, hnull, usbEpDisable]
    · by_cases hout : s.outEp.driverData = .null
      · simp [disableGChar, disableEp, hout, h.outNull hout]
      · simp [disableGChar, disableEp, hout, usbEpDisable]

theorem paired_of_disabled {s : State} (hin : s.inEp.enabled = false)
    (hout : s.outEp.enabled = false) : Paired s :=
  ⟨hin.trans hout.symm, fun _ => hin, fun _ => hout⟩

theorem not_enabled {s : State} (hin : s.inEp.enabled = false) : ¬ s.Enabled := fun h =>
  Bool.false_ne_true (hin.symm.trans h.1)

/-- `g_char_f_disable` disables both endpoints, and leaves the requests. -/
theorem disableGChar_eq {s : State} (h : Paired s) :
    (disableGChar s).inEp.enabled = false ∧ (disableGChar s).outEp.enabled = false := by
  constructor
  · by_cases hin : s.inEp.driverData = .null
    · simp [disableGChar, disableEp, hin, h.inNull hin]
    · simp [disableGChar, disableEp, hin, usbEpDisable]
  · by_cases hout : s.outEp.driverData = .null
    · simp [disableGChar, disableEp, hout, h.outNull hout]
    · simp [disableGChar, disableEp, hout, usbEpDisable]

/-- What a `g_char_f_set_alt` does : it fails with an endpoint, enables the function with two
new requests, or returns 0 with the endpoints disabled after a failed allocation. -/
theorem setAlt_cases {s : State} (h : Paired s) (o : Outcome) :
    (¬ o.Enables ∧ (gCharFSetAlt o s).1 < 0 ∧ (gCharFSetAlt o s).2.inEp.enabled = false ∧
      (gCharFSetAlt o s).2.outEp.enabled = false ∧ (gCharFSetAlt o s).2.live = s.live ∧
      (gCharFSetAlt o s).2.inReq = s.inReq ∧ (gCharFSetAlt o s).2.outReq = s.outReq) ∨
    (o.Enables ∧ o.outReq = .ok ∧ o.inReq = .ok ∧ ∃ n, gCharFSetAlt o s =
      (0, ⟨⟨true, .priv⟩, ⟨true, .priv⟩, some (n + 1), some n, (n + 1) :: n :: s.live, n + 2⟩)) ∨
    (o.Enables ∧ ¬ (o.outReq = .ok ∧ o.inReq = .ok) ∧ (gCharFSetAlt o s).1 = 0 ∧
      (gCharFSetAlt o s).2.inEp.enabled = false ∧ (gCharFSetAlt o s).2.outEp.enabled = false ∧
      (gCharFSetAlt o s).2.live = s.live) := by
  obtain ⟨q, hq, hin, hout, hlive, hinReq, houtReq⟩ := exists_disabled h
  rw [hq o]
  by_cases hen : o.Enables
  · rw [enableGChar_alloc hen]
    by_cases hall : o.outReq = .ok ∧ o.inReq = .ok
    · refine Or.inr (Or.inl ⟨hen, hall.1, hall.2, q.next, ?_⟩)
      rw [allocRequests_ok hall.1 hall.2, hlive]
    · obtain ⟨hret, hi, ho, hl⟩ := allocRequests_fail hall 0
        { q with inEp := ⟨true, .priv⟩, outEp := ⟨true, .priv⟩ }
      exact Or.inr (Or.inr ⟨hen, hall, hret, congrArg Ep.enabled hi, congrArg Ep.enabled ho,
        hl.trans hlive⟩)
  · obtain ⟨err, hneg, ep, hep, hrun⟩ := enableGChar_fail hen hin
    rw [hrun]
    exact Or.inl ⟨hen, hneg, hep, hout, hlive, hinReq, houtReq⟩

/-! ## Runs -/

/-- The state between callbacks that have done what they should. -/
structure Inv (s : State) : Prop where
  paired : Paired s
  owned : Owned s

theorem inv_init : Inv init :=
  ⟨paired_of_disabled rfl rfl, ⟨rfl, fun _ => (nomatch ·), fun _ => (nomatch ·)⟩⟩

theorem paired_step {s s' : State} {a : Action} (h : Paired s) (hstep : step s a = some s') :
    Paired s' := by
  cases a with
  | disable =>
    obtain rfl := Option.some.inj hstep
    obtain ⟨hin, hout⟩ := disableGChar_eq h
    exact paired_of_disabled hin hout
  | setAlt o =>
    obtain rfl := Option.some.inj hstep
    rcases setAlt_cases h o with ⟨-, -, hin, hout, -⟩ | ⟨-, -, -, n, hrun⟩ |
      ⟨-, -, -, hin, hout, -⟩
    · exact paired_of_disabled hin hout
    · rw [hrun]
      exact ⟨rfl, (nomatch ·), (nomatch ·)⟩
    · exact paired_of_disabled hin hout

/-- A callback after the function is enabled leaves requests nobody frees. -/
theorem not_holds_of_enabled {s s' : State} {a : Action} (h : Inv s) (hen : s.Enabled)
    (hstep : step s a = some s') : ¬ Owned s' := by
  have htwo : s.live.length = 2 := by rw [h.owned.count, if_pos hen]
  intro howned
  have hcount := howned.count
  cases a with
  | disable =>
    obtain rfl := Option.some.inj hstep
    obtain ⟨hin, -⟩ := disableGChar_eq h.paired
    rw [if_neg (not_enabled hin)] at hcount
    exact absurd (htwo.symm.trans hcount) (by decide)
  | setAlt o =>
    obtain rfl := Option.some.inj hstep
    rcases setAlt_cases h.paired o with ⟨-, -, hin, -, hlive, -⟩ | ⟨-, -, -, n, hrun⟩ |
      ⟨-, -, -, hin, -, hlive⟩
    · rw [if_neg (not_enabled hin), hlive, htwo] at hcount
      exact absurd hcount (by decide)
    · rw [hrun] at hcount
      simp only [List.length_cons, htwo] at hcount
      split_ifs at hcount
      omega
    · rw [if_neg (not_enabled hin), hlive, htwo] at hcount
      exact absurd hcount (by decide)

theorem holds_iff {s s' : State} {a : Action} (h : Inv s) (hstep : step s a = some s') :
    Holds s a s' ↔ Fresh s a s' := by
  by_cases hen : s.Enabled
  · exact iff_of_false (fun hh => not_holds_of_enabled h hen hstep hh.owned)
      fun hf => hf.1 hen
  · -- without requests there is nothing the pointers could point to
    have hnil : s.live = [] := by
      have hcount := h.owned.count
      rw [if_neg hen] at hcount
      exact List.eq_nil_of_length_eq_zero hcount
    have hempty : ∀ {t : State}, t.inEp.enabled = false → t.live = s.live → t.inReq = s.inReq →
        t.outReq = s.outReq → Owned t := fun hin hlive hi ho =>
      ⟨by rw [hlive, hnil, if_neg (not_enabled hin)]; rfl,
        fun r hr => hlive ▸ h.owned.inReq r (hi ▸ hr),
        fun r hr => hlive ▸ h.owned.outReq r (ho ▸ hr)⟩
    cases a with
    | disable =>
      obtain rfl := Option.some.inj hstep
      refine iff_of_true ⟨fun o => (nomatch ·), ?_⟩ ⟨hen, fun o => (nomatch ·)⟩
      exact hempty (disableGChar_eq h.paired).1 rfl rfl rfl
    | setAlt o =>
      obtain rfl := Option.some.inj hstep
      rcases setAlt_cases h.paired o with ⟨hfail, hneg, hin, hout, hlive, hinReq, houtReq⟩ |
        ⟨-, hok, hok', n, hrun⟩ | ⟨henables, hfail, hret, hin, -, -⟩
      · refine iff_of_true ⟨fun o' ho => ?_, hempty hin hlive hinReq houtReq⟩
          ⟨hen, fun o' ho henables => ?_⟩
        · obtain rfl := Action.setAlt.inj ho
          exact ⟨iff_of_false (Int.ne_of_lt hneg) fun hc => not_enabled hin hc.1,
            fun _ => ⟨hin, hout⟩⟩
        · obtain rfl := Action.setAlt.inj ho
          exact absurd henables hfail
      · refine iff_of_true ⟨fun o' ho => ?_, ?_⟩ ⟨hen, fun o' ho _ => ?_⟩
        · obtain rfl := Action.setAlt.inj ho
          rw [hrun]
          exact ⟨iff_of_true rfl ⟨⟨rfl, rfl⟩, ⟨n + 1, rfl, by simp⟩, ⟨n, rfl, by simp⟩⟩,
            fun hne => absurd rfl hne⟩
        · rw [hrun, hnil]
          exact ⟨rfl, fun r hr => by simp_all, fun r hr => by simp_all⟩
        · obtain rfl := Action.setAlt.inj ho
          exact ⟨hok, hok'⟩
      · refine iff_of_false (fun hh => ?_) fun hf => hfail (hf.2 o rfl henables)
        exact not_enabled hin ((hh.setAlt o rfl).zero.mp hret).1

/-- Over any run of callbacks with any failures : each does what it should exactly if each
finds the function not enabled and no allocation fails. -/
theorem lifeCycle_iff (as : List Action) :
    Transition.Always step Holds init as ↔ Transition.Always step Fresh init as :=
  Transition.always_congr (I := Inv) (fun _ _ _ => holds_iff)
    (fun _ _ _ h hstep hholds => ⟨paired_step h.paired hstep, hholds.owned⟩) inv_init

/-- The first callback fails to allocate its second request : it returns 0 with the
endpoints disabled, and `out_req` points to a request that is freed. A function enabled and
disabled has two requests, one enabled twice has four. -/
theorem lifeCycle_broken :
    [gCharFSetAlt ⟨.ok, .ok, .ok, .ok, .ok, .noReq⟩ init].map
      (fun r => (r.1, r.2.inEp.enabled, r.2.outEp.enabled, r.2.outReq, r.2.live)) =
      [(0, false, false, some 0, [])] ∧
    [[Action.setAlt ⟨.ok, .ok, .ok, .ok, .ok, .ok⟩, .disable],
      [.setAlt ⟨.ok, .ok, .ok, .ok, .ok, .ok⟩, .setAlt ⟨.ok, .ok, .ok, .ok, .ok, .ok⟩]].map
      (fun as => (Transition.run step init as).map fun s => (decide s.Enabled, s.live)) =
      [some (false, [1, 0]), some (true, [3, 2, 1, 0])] := by
  decide

end GChar

end LinuxDriverKb
