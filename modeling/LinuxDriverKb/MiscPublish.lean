import LinuxDriverKb.Lib.Stages
import LinuxDriverKb.Lib.Transition

/-!
# The publication of the misc devices

`fasync_io_misc.c`, both TMP75 drivers and `g_char_bind_config` of `g_char.c` register their
misc device before they store the driver data that an open hands to the file, and `g_char`
also before it initialises its wait queues. User space can open the device and use the file
in between.

`publish_iff` : over any run no open stores a null pointer, and the calls on a file find an
initialised structure, if and only if the opens and the calls come after what they need.
-/

set_option autoImplicit false

namespace LinuxDriverKb

namespace MiscPublish

/-! ## The drivers -/

/-- The client pointer and the wait queues in the private structures. -/
inductive Field
  | client
  | wq
  | rWq
  | wWq
  deriving DecidableEq

/-- The steps of the probes. -/
inductive ProbeStep
  | kzalloc
  | devmGpiodGet
  | devmRequestIrq
  | setupTimer
  | mutexInit
  | devmRegmapInit
  | initCompletion
  | usbAddFunction
  | miscRegister
  | setResolutionCfg
  /-- The assignment of the client, or `init_waitqueue_head`. -/
  | init (f : Field)
  | devSetDrvdata
  /-- `platform_set_drvdata` or `i2c_set_clientdata`. -/
  | setParentData
  deriving DecidableEq

/-- The calls on an opened file. -/
inductive FileOp
  | read
  | write
  | ioctl
  deriving DecidableEq

/-- A probe that stores the driver data after it registers the device, the fields of the
private structure that must be initialised, and the calls its files have. -/
structure Driver where
  probe : List ProbeStep
  fields : List Field
  fops : List FileOp
  ordered : ∀ pos < probe.length, probe[pos]? = some .miscRegister →
    ¬Stages.Done probe pos .devSetDrvdata

/-- `fasync_io_misc.c`. -/
def fasyncIoMisc : Driver where
  probe := [.kzalloc, .devmGpiodGet, .devmRequestIrq, .setupTimer, .init .wq, .mutexInit,
    .miscRegister, .devSetDrvdata, .setParentData]
  fields := [.wq]
  fops := [.read]
  ordered := by decide

/-- The driver on raw I2C. -/
def tmp75I2c : Driver where
  probe := [.kzalloc, .miscRegister, .setResolutionCfg, .init .client, .devSetDrvdata,
    .setParentData]
  fields := [.client]
  fops := [.ioctl]
  ordered := by decide

/-- The driver on regmap. -/
def tmp75Regmap : Driver where
  probe := [.kzalloc, .devmRegmapInit, .miscRegister, .setResolutionCfg, .init .client,
    .devSetDrvdata, .setParentData]
  fields := [.client]
  fops := [.ioctl]
  ordered := by decide

/-- `g_char.c`. -/
def gChar : Driver where
  probe := [.kzalloc, .initCompletion, .usbAddFunction, .miscRegister, .devSetDrvdata,
    .init .rWq, .init .wWq]
  fields := [.rWq, .wWq]
  fops := [.read, .write]
  ordered := by decide

/-- The drivers of misc devices. -/
def drivers : List Driver :=
  [fasyncIoMisc, tmp75I2c, tmp75Regmap, gChar]

/-! ## Opens and calls -/

/-- The driver data of the device, as `dev_get_drvdata` returns it. -/
inductive DrvData
  | null
  /-- A pointer of the misc core. -/
  | core
  /-- The private structure of the driver. -/
  | priv
  deriving DecidableEq

/-- What `misc_register` leaves as driver data : it does not know the private structure. -/
structure MiscCore where
  left : DrvData
  left_ne : left ≠ .priv

/-- The private data of an opened file, and the steps of the probe before its open. -/
structure File where
  privateData : DrvData
  openedAt : ℕ

/-- `pos` steps of the probe have been run. -/
structure State where
  pos : ℕ
  failed : Bool
  registered : Bool
  drvdata : DrvData
  fields : Field → Bool
  files : List File

/-- What happens next. -/
inductive Action
  /-- The next step of the probe. -/
  | probe (ok : Bool)
  | open
  /-- A call on the `i`-th opened file. -/
  | call (i : ℕ) (op : FileOp)

variable (C : MiscCore)

/-- What a step of the probe does here. -/
def ProbeStep.exec (k : ProbeStep) (s : State) : State :=
  match k with
  | .miscRegister => { s with registered := true, drvdata := C.left }
  | .devSetDrvdata => { s with drvdata := .priv }
  | .init f => { s with fields := Function.update s.fields f true }
  | _ => s

/-- A step that fails ends the probe. None does after `misc_register`. -/
def probe (d : Driver) (s : State) (ok : Bool) : Option State :=
  if s.failed then none
  else d.probe[s.pos]?.map fun k =>
    if ok ∨ s.registered then { k.exec C s with pos := s.pos + 1 } else { s with failed := true }

/-- One action of a driver. -/
def step (d : Driver) (s : State) : Action → Option State
  | .probe ok => probe C d s ok
  | .open => if s.registered then some { s with files := s.files ++ [⟨s.drvdata, s.pos⟩] } else none
  | .call i op => if op ∈ d.fops ∧ i < s.files.length then some s else none

/-- Before the probe. -/
def start : State where
  pos := 0
  failed := false
  registered := false
  drvdata := C.left
  fields _ := false
  files := []

/-! ## What a run should do -/

/-- An open stores a pointer. A call finds the private structure in its file, with the client
and the wait queues initialised. -/
def Usable (d : Driver) (s : State) (a : Action) (_ : State) : Prop :=
  match a with
  | .open => s.drvdata ≠ .null
  | .call i _ => (∀ f ∈ s.files[i]?, f.privateData = .priv) ∧ ∀ f ∈ d.fields, s.fields f = true
  | .probe _ => True

instance (d : Driver) (s : State) (a : Action) (s' : State) : Decidable (Usable d s a s') :=
  match a with
  | .open => inferInstanceAs (Decidable (s.drvdata ≠ .null))
  | .call i _ => inferInstanceAs (Decidable
      ((∀ f ∈ s.files[i]?, f.privateData = .priv) ∧ ∀ f ∈ d.fields, s.fields f = true))
  | .probe _ => inferInstanceAs (Decidable True)

/-- Opens come after `dev_set_drvdata`, unless the core leaves a pointer. Calls are on files
opened after it, and come after the client and the wait queues are initialised. -/
def AfterProbe (d : Driver) (s : State) (a : Action) (_ : State) : Prop :=
  match a with
  | .open => Stages.Done d.probe s.pos .devSetDrvdata ∨ C.left ≠ .null
  | .call i _ => (∀ f ∈ s.files[i]?, Stages.Done d.probe f.openedAt .devSetDrvdata) ∧
      ∀ f ∈ d.fields, Stages.Done d.probe s.pos (.init f)
  | .probe _ => True

instance (d : Driver) (s : State) (a : Action) (s' : State) : Decidable (AfterProbe C d s a s') :=
  match a with
  | .open => inferInstanceAs (Decidable
      (Stages.Done d.probe s.pos .devSetDrvdata ∨ C.left ≠ .null))
  | .call i _ => inferInstanceAs (Decidable
      ((∀ f ∈ s.files[i]?, Stages.Done d.probe f.openedAt .devSetDrvdata) ∧
        ∀ f ∈ d.fields, Stages.Done d.probe s.pos (.init f)))
  | .probe _ => inferInstanceAs (Decidable True)

/-! ## How far the probe has come -/

/-- What the steps done so far have set, and what the open files have seen. -/
structure Inv (d : Driver) (s : State) : Prop where
  drvdata : s.drvdata = if Stages.Done d.probe s.pos .devSetDrvdata then .priv else C.left
  fields : ∀ f, s.fields f = true ↔ Stages.Done d.probe s.pos (.init f)
  files : ∀ f ∈ s.files, f.privateData = .priv ↔ Stages.Done d.probe f.openedAt .devSetDrvdata

variable {C} {d : Driver} {s s' : State}

theorem inv_start (d : Driver) : Inv C d (start C) where
  drvdata := (if_neg Stages.not_done_zero).symm
  fields _ := iff_of_false nofun Stages.not_done_zero
  files _ hf := nomatch hf

/-- The driver data is the private structure exactly after `dev_set_drvdata`. -/
theorem Inv.drvdata_eq_priv (h : Inv C d s) :
    s.drvdata = .priv ↔ Stages.Done d.probe s.pos .devSetDrvdata := by
  rw [h.drvdata]
  split_ifs with hdone
  · exact iff_of_true rfl hdone
  · exact iff_of_false C.left_ne hdone

theorem Inv.drvdata_ne_null (h : Inv C d s) :
    s.drvdata ≠ .null ↔ Stages.Done d.probe s.pos .devSetDrvdata ∨ C.left ≠ .null := by
  rw [h.drvdata]
  split_ifs with hdone
  · exact iff_of_true nofun (.inl hdone)
  · exact (or_iff_right hdone).symm

theorem exec_files (k : ProbeStep) (s : State) : (k.exec C s).files = s.files := by
  cases k <;> rfl

/-- The step leaves the driver data as the steps up to it do. -/
theorem exec_drvdata (h : Inv C d s) {k : ProbeStep} (hk : d.probe[s.pos]? = some k) :
    (k.exec C s).drvdata =
      if Stages.Done d.probe (s.pos + 1) .devSetDrvdata then .priv else C.left := by
  have hpos : s.pos < d.probe.length := (List.getElem?_eq_some_iff.mp hk).1
  simp only [Stages.done_succ hk]
  cases k with
  | miscRegister =>
    have hno := d.ordered s.pos hpos hk
    exact (if_neg (not_or.mpr ⟨hno, nofun⟩)).symm
  | devSetDrvdata => exact (if_pos (.inr rfl)).symm
  | _ => simpa [ProbeStep.exec] using h.drvdata

theorem exec_fields (h : Inv C d s) {k : ProbeStep} (hk : d.probe[s.pos]? = some k) (f : Field) :
    (k.exec C s).fields f = true ↔ Stages.Done d.probe (s.pos + 1) (.init f) := by
  rw [Stages.done_succ hk, ← h.fields f]
  cases k with
  | init g =>
    by_cases hfg : f = g
    · simp [ProbeStep.exec, hfg]
    · simp [ProbeStep.exec, hfg]
  | _ => simp [ProbeStep.exec]

theorem inv_probe (h : Inv C d s) {ok : Bool} (hstep : step C d s (.probe ok) = some s') :
    Inv C d s' := by
  simp only [step, probe] at hstep
  split_ifs at hstep with hfailed hok
  · obtain ⟨k, hk, rfl⟩ := Option.map_eq_some_iff.mp hstep
    refine ⟨exec_drvdata h hk, exec_fields h hk, ?_⟩
    rw [exec_files]
    exact h.files
  · obtain ⟨k, -, rfl⟩ := Option.map_eq_some_iff.mp hstep
    exact ⟨h.drvdata, h.fields, h.files⟩

theorem inv_open (h : Inv C d s) (hstep : step C d s .open = some s') : Inv C d s' := by
  simp only [step] at hstep
  split_ifs at hstep
  obtain rfl := Option.some.inj hstep
  refine ⟨h.drvdata, h.fields, fun f hf => ?_⟩
  rcases List.mem_append.mp hf with hold | hnew
  · exact h.files f hold
  · rw [List.mem_singleton.mp hnew]
    exact h.drvdata_eq_priv

theorem inv_step {a : Action} (h : Inv C d s) (hstep : step C d s a = some s') : Inv C d s' := by
  cases a with
  | probe ok => exact inv_probe h hstep
  | «open» => exact inv_open h hstep
  | call i op =>
    simp only [step] at hstep
    split_ifs at hstep
    obtain rfl := Option.some.inj hstep
    exact h

/-- A step finds what it needs exactly if it comes after the probe has provided it. -/
theorem usable_iff {a : Action} (h : Inv C d s) : Usable d s a s' ↔ AfterProbe C d s a s' := by
  cases a with
  | probe ok => exact Iff.rfl
  | «open» => exact h.drvdata_ne_null
  | call i op =>
    refine and_congr (forall₂_congr fun f hf => ?_) (forall₂_congr fun f _ => h.fields f)
    exact h.files f (List.mem_of_getElem? hf)

/-! ## Runs -/

variable (C)

/-- For each driver, in every run of its probe with opens and calls : every open stores a
pointer, and every call finds the private structure with its client and wait queues
initialised, if and only if the opens come after `dev_set_drvdata` (or the core leaves a
pointer), and the calls are on files opened after it and come after the initialisations. -/
theorem publish_iff (as : List Action) :
    ∀ d ∈ drivers, Transition.Always (step C d) (Usable d) (start C) as ↔
      Transition.Always (step C d) (AfterProbe C d) (start C) as := by
  intro d _
  exact Transition.always_congr (I := Inv C d) (fun s a s' h _ => usable_iff h)
    (fun s a s' h hstep _ => inv_step h hstep) (inv_start d)

/-- A whole bind of `g_char`, an open, a read and a write. -/
theorem publish_iff_gChar :
    Transition.Always (step ⟨.null, nofun⟩ gChar) (Usable gChar) (start ⟨.null, nofun⟩)
      (gChar.probe.map (fun _ => .probe true) ++ [.open, .call 0 .read, .call 0 .write]) :=
  (publish_iff _ _ gChar (by simp [drivers])).mpr (by decide)

/-- A core that leaves no driver data. -/
def leftNull : MiscCore :=
  ⟨.null, nofun⟩

/-- A core that leaves data of its own. -/
def leftCore : MiscCore :=
  ⟨.core, nofun⟩

/-- The steps of a probe up to `misc_register`. -/
def upToRegister (d : Driver) : List Action :=
  (d.probe.take (d.probe.idxOf .miscRegister + 1)).map fun _ => .probe true

/-- For each driver : an open right after `misc_register` stores a null pointer, or the
pointer of the core, which a call takes for the private structure. A read of `g_char` right
after `dev_set_drvdata` waits on a wait queue that is not initialised. -/
theorem open_in_window :
    (drivers.all fun d => decide
      (¬Transition.Always (step leftNull d) (Usable d) (start leftNull)
          (upToRegister d ++ [.open]) ∧
        ¬Transition.Always (step leftCore d) (Usable d) (start leftCore)
          (upToRegister d ++ (.open :: d.fops.map (.call 0))))) = true ∧
      ¬Transition.Always (step leftCore gChar) (Usable gChar) (start leftCore)
        (upToRegister gChar ++ [.probe true, .open, .call 0 .read]) := by
  decide

end MiscPublish

end LinuxDriverKb
