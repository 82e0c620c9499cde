import LinuxDriverKb.Lib.Unwind

/-!
# Loading and unloading the modules, binding and unbinding their devices

Every `init` and every `probe` of the sources that returns and acquires what is not released
by itself, with its `exit` or `remove`. Most unwind with labels, `softdog_init` with a loop. Some do
not : `virt_mtd_init` and its like ignore the results of both registrations, `sysfs_drv_init`
takes the error of a null pointer and drops no reference, `proc_test_init` and the
registration of the notifiers return without unwinding, the consumer of the clock ignores
that it is not enabled, and the lookup of the gate clock is ignored and never dropped. Two
removals hand on the error of what they unregister, with which the core can do nothing.

`lifecycle_iff` : over any sequence of loads and unloads the live resources are those of what
is loaded, each released once, if and only if none of these is reached.
-/

set_option autoImplicit false

namespace LinuxDriverKb

namespace ModuleLifecycle

open Unwind

/-! ## The scripts -/

/-- What a step acquires. -/
inductive Kind
  | chrdevRegion
  | cdev
  | cls
  | device
  | miscdev
  | inputDevice
  | softdog
  | watchdog (i : ℕ)
  | kobject
  | sysfsPath
  | sysfsFile0
  | sysfsGroup
  | sysfsFile1
  | timer
  | myproc
  | myfile
  | platformDevice
  | platformDriver
  | uartDriver
  | uartPort
  | uioDevice
  | mtd
  | clk
  | clkLookup
  | clkRef
  | clkEnabled
  | mdiobus
  | netDev
  | phy
  | notifierBlock (i : ℕ)
  | kthread
  | mousePriv
  | transferBuffer
  | urb
  | backlightDevice
  | pwmchip
  | pwm
  | pctldev
  | gpiochip
  deriving DecidableEq

/-- Steps with nothing to unwind, whose resources the device itself releases. -/
def managed (n : ℕ) : List (Step Kind) :=
  List.replicate n ⟨[], .unwind []⟩

/-- `n` managed steps, and then one registration. -/
def registration (n : ℕ) (kind : Kind) : Script Kind where
  steps := managed n ++ [⟨[kind], .unwind []⟩]
  exit := [kind]
  nodup := by simp [managed, List.flatMap_append, List.flatMap_replicate]

/-- A character device, with `err_class_destr`, `err_cdev_del` and `err_chrdev_unreg`. -/
def chrdevSteps : List (Step Kind) :=
  [⟨[.chrdevRegion], .unwind []⟩,
    ⟨[.cdev], .unwind [.chrdevRegion]⟩,
    ⟨[.cls], .unwind [.cdev, .chrdevRegion]⟩,
    ⟨[.device], .unwind [.cls, .cdev, .chrdevRegion]⟩]

/-- `n` managed steps, and then a character device. -/
def chrdev (n : ℕ) : Script Kind where
  steps := managed n ++ chrdevSteps
  exit := [.cdev, .chrdevRegion, .device, .cls]
  nodup := by simp [managed, chrdevSteps, List.flatMap_append, List.flatMap_replicate]

/-- `c-drv.c`. -/
def charDev : Script Kind :=
  chrdev 0

/-- `seq_file.c`. -/
def seqfileTest : Script Kind :=
  chrdev 0

/-- The memory, the pin and its interrupt are managed. -/
def blockIo : Script Kind :=
  chrdev 3

/-- `nonblock_io.c`. -/
def nonblockIo : Script Kind :=
  chrdev 3

/-- `fasync_io.c`. -/
def fasyncIo : Script Kind :=
  chrdev 3

/-- `fasync_io_misc.c`. -/
def fasyncIoMisc : Script Kind :=
  registration 3 .miscdev

/-- The input device is managed too, but for its registration. -/
def inputDevice : Script Kind :=
  registration 4 .inputDevice

/-- `tmp75.c` of chapter 15. -/
def tmp75I2c : Script Kind :=
  registration 1 .miscdev

/-- The register map is managed. -/
def tmp75Regmap : Script Kind :=
  registration 2 .miscdev

/-- `backlight-drv.c`. -/
def backlightTest : Script Kind :=
  registration 1 .backlightDevice

/-- `pwmchip_remove` fails while one of its devices is requested. -/
def pwmchipTest : Script Kind :=
  { registration 1 .pwmchip with exitFails := true }

/-- `pwm_device.c`. -/
def pwmdeviceTest : Script Kind :=
  registration 0 .pwm

/-- `virt-pinctrl.c`. -/
def virtPinctrl : Script Kind :=
  registration 1 .pctldev

/-- `virt_gpiochip.c`. -/
def virtGpiochip : Script Kind :=
  registration 1 .gpiochip

/-- The memory, the second allocation and the pin; the pages are not checked. -/
def virtUio : Script Kind :=
  registration 3 .uioDevice

/-- `mtd_device_unregister` fails while the device is in use. -/
def virtMtdDev : Script Kind :=
  { registration 1 .mtd with exitFails := true }

/-- The memory and the index of the port. -/
def virtUartPort : Script Kind :=
  registration 2 .uartPort

/-- `virt-fixed-rate-clk.c`. -/
def virtFixedRateClk : Script Kind :=
  registration 0 .clk

/-- `netdev_chain.c`. -/
def netdevChainTest : Script Kind :=
  registration 0 (.notifierBlock 1)

/-- `kthread.c`. -/
def kthreadTest : Script Kind :=
  registration 0 .kthread

/-- The module of `serial-virt.c`. -/
def virtUart : Script Kind where
  steps := [⟨[.uartDriver], .unwind []⟩, ⟨[.platformDriver], .unwind [.uartDriver]⟩]
  exit := [.platformDriver, .uartDriver]
  nodup := by decide

/-- `vnet.c`, with `free_netdev`. -/
def vnet : Script Kind where
  steps := [⟨[.netDev], .unwind []⟩, ⟨[.device], .unwind [.netDev]⟩]
  exit := [.device, .netDev]
  nodup := by decide

/-- With `free_netdev` and `unregister_mdiobus`. -/
def virtMiiBus : Script Kind where
  steps := managed 2 ++
    [⟨[.mdiobus], .unwind []⟩,
      ⟨[.netDev], .unwind [.mdiobus]⟩,
      ⟨[.phy], .unwind [.netDev, .mdiobus]⟩]
  exit := [.phy, .netDev, .mdiobus]
  nodup := by decide

/-- With `error_submit_urb`, `error_alloc_urb` and `error_alloc_buffer`. -/
def fakeMouse : Script Kind where
  steps :=
    [⟨[.mousePriv], .unwind []⟩,
      ⟨[.transferBuffer], .unwind [.mousePriv]⟩,
      ⟨[.urb], .unwind [.transferBuffer, .mousePriv]⟩,
      ⟨[], .unwind [.urb, .transferBuffer, .mousePriv]⟩]
  exit := [.urb, .transferBuffer, .mousePriv]
  nodup := by decide

/-- The first `n` watchdogs. -/
def watchdogs (n : ℕ) : List Kind :=
  (List.range n).map .watchdog

/-- A watchdog that fails unregisters those before it. -/
def registerWatchdog (i : ℕ) : Step Kind :=
  ⟨[.watchdog i], .unwind (watchdogs i ++ [.softdog])⟩

theorem acquires_watchdogs (n : ℕ) :
    ((List.range n).map registerWatchdog).flatMap Step.acquires = watchdogs n := by
  rw [List.flatMap_map, watchdogs, List.map_eq_flatMap]
  rfl

theorem nodup_watchdogs (n : ℕ) : (watchdogs n).Nodup :=
  List.nodup_range.map fun _ _ h => Kind.watchdog.inj h

/-- `soft_wdt.c`, with its number of watchdogs. -/
def softdog (softdogNum : ℕ) : Script Kind where
  steps := ⟨[.softdog], .unwind []⟩ :: (List.range softdogNum).map registerWatchdog
  exit := watchdogs softdogNum ++ [.softdog]
  nodup := by
    rw [List.flatMap_cons, acquires_watchdogs]
    exact List.nodup_cons.mpr ⟨by simp [watchdogs], nodup_watchdogs softdogNum⟩

/-- Both registrations are ignored. -/
def platformModule : Script Kind where
  steps := [⟨[.platformDevice], .ignored⟩, ⟨[.platformDriver], .ignored⟩]
  exit := [.platformDriver, .platformDevice]
  nodup := by decide

/-- The module of `virt_mtd.c`. -/
def virtMtd : Script Kind :=
  platformModule

/-- The module of `virt_mfd_core.c`. -/
def virtMfdCore : Script Kind :=
  platformModule

/-- The module of `virt-gate-clk.c`. -/
def virtGateClk : Script Kind :=
  platformModule

/-- The module of `virt-clk-consumer.c`. -/
def virtClkConsumer : Script Kind :=
  platformModule

/-- The directory that cannot be created has the error 0; the other labels take it out of
the tree, and keep the reference to the object. -/
def sysfsDrv : Script Kind where
  steps :=
    [⟨[.kobject, .sysfsPath], .masked []⟩,
      ⟨[.sysfsFile0], .unwind [.sysfsPath]⟩,
      ⟨[.sysfsGroup], .unwind [.sysfsFile0, .sysfsPath]⟩,
      ⟨[.sysfsFile1], .unwind [.sysfsGroup, .sysfsFile0, .sysfsPath]⟩]
  exit := [.sysfsFile1, .sysfsGroup, .sysfsFile0, .sysfsPath, .kobject]
  nodup := by decide

/-- The timer runs before the entries are there. -/
def procTest : Script Kind where
  steps := [⟨[.timer], .never⟩, ⟨[.myproc], .unwind []⟩, ⟨[.myfile], .unwind []⟩]
  exit := [.timer, .myfile, .myproc]
  nodup := by decide

/-- `notifier_register.c`. -/
def notifierChainTest : Script Kind where
  steps :=
    [⟨[.notifierBlock 1], .unwind []⟩,
      ⟨[.notifierBlock 2], .unwind []⟩,
      ⟨[.notifierBlock 3], .unwind []⟩]
  exit := [.notifierBlock 1, .notifierBlock 2, .notifierBlock 3]
  nodup := by decide

/-- The lookup is ignored, and not dropped by the removal. -/
def virtGateClkDev : Script Kind where
  steps := managed 1 ++ [⟨[.clk], .unwind []⟩, ⟨[.clkLookup], .ignored⟩]
  exit := [.clk]
  nodup := by decide

/-- That the clock is not enabled is ignored. -/
def virtClkConsumerDev : Script Kind where
  steps := [⟨[.clkRef], .unwind []⟩, ⟨[.clkEnabled], .ignored⟩]
  exit := [.clkEnabled, .clkRef]
  nodup := by decide

/-! ## The system -/

/-- A module, or a driver bound to the device `dev`. -/
inductive Driver
  | charDev
  | seqfileTest
  | blockIo (dev : ℕ)
  | nonblockIo (dev : ℕ)
  | fasyncIo (dev : ℕ)
  | fasyncIoMisc (dev : ℕ)
  | inputDevice (dev : ℕ)
  | tmp75I2c (dev : ℕ)
  | tmp75Regmap (dev : ℕ)
  | backlightTest (dev : ℕ)
  | pwmchipTest (dev : ℕ)
  | pwmdeviceTest (dev : ℕ)
  | virtPinctrl (dev : ℕ)
  | virtGpiochip (dev : ℕ)
  | virtUio (dev : ℕ)
  | virtMtdDev (dev : ℕ)
  | virtUartPort (dev : ℕ)
  | virtFixedRateClk
  | netdevChainTest
  | kthreadTest
  | virtUart
  | vnet
  | virtMiiBus (dev : ℕ)
  | fakeMouse (dev : ℕ)
  | softdog
  | virtMtd
  | virtMfdCore
  | virtGateClk
  | virtClkConsumer
  | sysfsDrv
  | procTest
  | notifierChainTest
  | virtGateClkDev (dev : ℕ)
  | virtClkConsumerDev (dev : ℕ)
  deriving DecidableEq

/-- The script of each. -/
def script (softdogNum : ℕ) : Driver → Script Kind
  | .charDev => charDev
  | .seqfileTest => seqfileTest
  | .blockIo _ => blockIo
  | .nonblockIo _ => nonblockIo
  | .fasyncIo _ => fasyncIo
  | .fasyncIoMisc _ => fasyncIoMisc
  | .inputDevice _ => inputDevice
  | .tmp75I2c _ => tmp75I2c
  | .tmp75Regmap _ => tmp75Regmap
  | .backlightTest _ => backlightTest
  | .pwmchipTest _ => pwmchipTest
  | .pwmdeviceTest _ => pwmdeviceTest
  | .virtPinctrl _ => virtPinctrl
  | .virtGpiochip _ => virtGpiochip
  | .virtUio _ => virtUio
  | .virtMtdDev _ => virtMtdDev
  | .virtUartPort _ => virtUartPort
  | .virtFixedRateClk => virtFixedRateClk
  | .netdevChainTest => netdevChainTest
  | .kthreadTest => kthreadTest
  | .virtUart => virtUart
  | .vnet => vnet
  | .virtMiiBus _ => virtMiiBus
  | .fakeMouse _ => fakeMouse
  | .softdog => softdog softdogNum
  | .virtMtd => virtMtd
  | .virtMfdCore => virtMfdCore
  | .virtGateClk => virtGateClk
  | .virtClkConsumer => virtClkConsumer
  | .sysfsDrv => sysfsDrv
  | .procTest => procTest
  | .notifierChainTest => notifierChainTest
  | .virtGateClkDev _ => virtGateClkDev
  | .virtClkConsumerDev _ => virtClkConsumerDev

/-- A load whose failures are not unwound. -/
def Leaks : Driver → (ℕ → Bool) → Prop
  | .virtMtd, fails | .virtMfdCore, fails | .virtGateClk, fails | .virtClkConsumer, fails =>
    fails 0 = true ∨ fails 1 = true
  | .sysfsDrv, fails => fails 0 = true ∨ fails 1 = true ∨ fails 2 = true ∨ fails 3 = true
  | .procTest, fails => fails 1 = true ∨ fails 2 = true
  | .notifierChainTest, fails => fails 0 = false ∧ (fails 1 = true ∨ fails 2 = true)
  | .virtGateClkDev _, fails => fails 0 = false ∧ fails 1 = false ∧ fails 2 = true
  | .virtClkConsumerDev _, fails => fails 0 = false ∧ fails 1 = true
  | _, _ => False

/-- An unload that does not release what is there. -/
def Keeps : Driver → Bool → Prop
  | .pwmchipTest _, fails | .virtMtdDev _, fails => fails = true
  | .virtGateClkDev _, _ => True
  | _, _ => False

/-- No load leaks, and no unload keeps what is there. -/
def Unwound (_ : State Driver Kind) (a : Action Driver) (_ : State Driver Kind) : Prop :=
  match a with
  | .load d fails => ¬Leaks d fails
  | .unload d fails => ¬Keeps d fails

/-! ## Scripts that unwind -/

theorem resources_managed (n : ℕ) (steps : List (Step Kind)) :
    (managed n ++ steps).flatMap Step.acquires = steps.flatMap Step.acquires := by
  simp [managed, List.flatMap_append, List.flatMap_replicate]

/-- Managed steps have nothing to unwind. -/
theorem unwinds_managed (n : ℕ) (steps : List (Step Kind)) (h : Unwinds [] steps) :
    Unwinds [] (managed n ++ steps) := by
  induction n with
  | zero => exact h
  | succ n ih => exact ⟨.rfl, ih⟩

/-- The loop unwinds, by induction on the number of watchdogs. -/
theorem unwinds_softdog (n : ℕ) : Unwinds [] (softdog n).steps := by
  refine ⟨.rfl, ?_⟩
  induction n with
  | zero => exact True.intro
  | succ n ih =>
    rw [List.range_succ, List.map_append]
    refine unwinds_append.mpr ⟨ih, ?_, True.intro⟩
    rw [acquires_watchdogs]
    exact List.perm_append_comm

variable {softdogNum : ℕ} {fails : ℕ → Bool}

/-! ## The others -/

theorem clean_platformModule_iff :
    Clean platformModule fails ↔ ¬(fails 0 = true ∨ fails 1 = true) := by
  cases h0 : fails 0 <;> cases h1 : fails 1 <;>
    simp [Clean, platformModule, Script.load, load, Script.resources, h0, h1]

theorem clean_sysfsDrv_iff : Clean sysfsDrv fails ↔
    ¬(fails 0 = true ∨ fails 1 = true ∨ fails 2 = true ∨ fails 3 = true) := by
  cases h0 : fails 0 <;> cases h1 : fails 1 <;> cases h2 : fails 2 <;> cases h3 : fails 3 <;>
    simp [Clean, sysfsDrv, Script.load, load, Script.resources, h0, h1, h2, h3] <;> decide

theorem clean_procTest_iff :
    Clean procTest fails ↔ ¬(fails 1 = true ∨ fails 2 = true) := by
  cases h0 : fails 0 <;> cases h1 : fails 1 <;> cases h2 : fails 2 <;>
    simp [Clean, procTest, Script.load, load, Script.resources, h0, h1, h2]

theorem clean_notifierChainTest_iff : Clean notifierChainTest fails ↔
    ¬(fails 0 = false ∧ (fails 1 = true ∨ fails 2 = true)) := by
  cases h0 : fails 0 <;> cases h1 : fails 1 <;> cases h2 : fails 2 <;>
    simp [Clean, notifierChainTest, Script.load, load, Script.resources, h0, h1, h2]

theorem clean_virtGateClkDev_iff : Clean virtGateClkDev fails ↔
    ¬(fails 0 = false ∧ fails 1 = false ∧ fails 2 = true) := by
  cases h0 : fails 0 <;> cases h1 : fails 1 <;> cases h2 : fails 2 <;>
    simp [Clean, virtGateClkDev, managed, Script.load, load, Script.resources, h0, h1, h2]

theorem clean_virtClkConsumerDev_iff : Clean virtClkConsumerDev fails ↔
    ¬(fails 0 = false ∧ fails 1 = true) := by
  cases h0 : fails 0 <;> cases h1 : fails 1 <;>
    simp [Clean, virtClkConsumerDev, Script.load, load, Script.resources, h0, h1]

/-- A load is clean exactly if it is none of those whose failures are not unwound. -/
theorem clean_iff (d : Driver) : Clean (script softdogNum d) fails ↔ ¬Leaks d fails := by
  have hunwinds {S : Script Kind} (h : Unwinds [] S.steps) : Clean S fails ↔ ¬False :=
    iff_of_true (clean_of_unwinds h fails) not_false
  cases d with
  | virtMtd | virtMfdCore | virtGateClk | virtClkConsumer =>
    exact clean_platformModule_iff
  | sysfsDrv => exact clean_sysfsDrv_iff
  | procTest => exact clean_procTest_iff
  | notifierChainTest => exact clean_notifierChainTest_iff
  | virtGateClkDev => exact clean_virtGateClkDev_iff
  | virtClkConsumerDev => exact clean_virtClkConsumerDev_iff
  | charDev | seqfileTest | blockIo | nonblockIo | fasyncIo =>
    exact hunwinds (unwinds_managed _ chrdevSteps (by decide))
  | virtUart => exact hunwinds (S := virtUart) (by decide)
  | vnet => exact hunwinds (S := vnet) (by decide)
  | virtMiiBus => exact hunwinds (S := virtMiiBus) (by decide)
  | fakeMouse => exact hunwinds (S := fakeMouse) (by decide)
  | softdog => exact hunwinds (unwinds_softdog softdogNum)
  | _ => exact hunwinds (unwinds_managed _ _ ⟨.rfl, True.intro⟩)

theorem cleanExit_softdog (n : ℕ) (fails : Bool) : CleanExit (softdog n) fails := by
  refine cleanExit_of_perm rfl ?_ fails
  rw [Script.resources, softdog, List.flatMap_cons, acquires_watchdogs]
  exact List.perm_append_comm

theorem cleanExit_chrdev (n : ℕ) (fails : Bool) : CleanExit (chrdev n) fails := by
  refine cleanExit_of_perm rfl ?_ fails
  rw [Script.resources, chrdev, resources_managed]
  exact (by decide : (chrdev 0).exit.Perm (chrdev 0).resources)

theorem perm_registration (n : ℕ) (kind : Kind) :
    (registration n kind).exit.Perm (registration n kind).resources := by
  rw [Script.resources, registration, resources_managed]
  exact .rfl

/-- A removal that can fail is clean exactly if it does not. -/
theorem cleanExit_busy_iff (n : ℕ) (kind : Kind) (fails : Bool) :
    CleanExit { registration n kind with exitFails := true } fails ↔ ¬fails = true := by
  cases fails with
  | false => exact iff_of_true (perm_registration n kind) Bool.false_ne_true
  | true =>
    refine iff_of_false (fun h => ?_) (not_not_intro rfl)
    have hlen := (h.symm.trans (List.Perm.refl [])).length_eq
    have hone := (perm_registration n kind).length_eq
    exact absurd (hone.trans hlen) Nat.one_ne_zero

/-- An unload is clean exactly if it keeps nothing. -/
theorem cleanExit_iff (d : Driver) (fails : Bool) :
    CleanExit (script softdogNum d) fails ↔ ¬Keeps d fails := by
  have hclean {S : Script Kind} (h : S.exitFails = false) (hperm : S.exit.Perm S.resources) :
      CleanExit S fails ↔ ¬False :=
    iff_of_true (cleanExit_of_perm h hperm fails) not_false
  cases d with
  | charDev | seqfileTest | blockIo | nonblockIo | fasyncIo =>
    exact iff_of_true (cleanExit_chrdev _ fails) not_false
  | pwmchipTest | virtMtdDev => exact cleanExit_busy_iff _ _ fails
  | virtUart => exact hclean (S := virtUart) rfl (by decide)
  | vnet => exact hclean (S := vnet) rfl (by decide)
  | virtMiiBus => exact hclean (S := virtMiiBus) rfl (by decide)
  | fakeMouse => exact hclean (S := fakeMouse) rfl (by decide)
  | softdog => exact iff_of_true (cleanExit_softdog softdogNum fails) not_false
  | virtMtd | virtMfdCore | virtGateClk | virtClkConsumer =>
    exact hclean (S := platformModule) rfl (by decide)
  | sysfsDrv => exact hclean (S := sysfsDrv) rfl (by decide)
  | procTest => exact hclean (S := procTest) rfl (by decide)
  | notifierChainTest => exact hclean (S := notifierChainTest) rfl (by decide)
  | virtGateClkDev =>
    have hnot : ∀ fails, ¬CleanExit virtGateClkDev fails := by decide
    exact iff_of_false (hnot fails) (not_not_intro True.intro)
  | virtClkConsumerDev => exact hclean (S := virtClkConsumerDev) rfl (by decide)
  | _ => exact hclean rfl (perm_registration _ _)

theorem cleanAction_iff (s s' : State Driver Kind) (a : Action Driver) :
    CleanAction (script softdogNum) s a s' ↔ Unwound s a s' := by
  cases a with
  | load d fails => exact clean_iff d
  | unload d fails => exact cleanExit_iff d fails

/-- In every sequence of loads and unloads of any of the modules and drivers, for any number
of watchdogs and whatever steps and removals fail : each resource is released once and only
while it is live, a failed load leaves none, and the live ones are those of what is loaded, if
and only if no load leaks, neither removal that can fail does, and no gate clock is removed. -/
theorem lifecycle_iff (softdogNum : ℕ) (as : List (Action Driver)) :
    Transition.Always (step (script softdogNum)) (Accounted (script softdogNum)) start as ↔
      Transition.Always (step (script softdogNum)) Unwound start as :=
  (always_accounted_iff as).trans <|
    Transition.always_congr (I := fun _ => True)
      (fun s a s' _ _ => cleanAction_iff s s' a) (fun _ _ _ _ _ _ => True.intro) True.intro

end ModuleLifecycle

end LinuxDriverKb
