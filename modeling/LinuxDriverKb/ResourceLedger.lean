import LinuxDriverKb.Lib.Ledger
import LinuxDriverKb.Lib.Transition
import Mathlib.Algebra.Ring.Int.Defs

/-!
# The resources of `virt-disk.c` and `ssd1306fb.c`

The probes acquire resources one by one and unwind them with labels when a step fails, the
removals release them. The labels of `virt_disk_probe` stand in the wrong order, those of
`ssd1306fb_probe` leave out the display pages, and `ssd1306fb_remove` passes the address of
the pages to `__free_pages`, which takes the descriptor of a page.

`resources_iff` : over any sequence of probes and removals of any devices the live resources
are those of the bound devices, each released once, if and only if none of these is reached.
-/

set_option autoImplicit false

namespace LinuxDriverKb

namespace ResourceLedger

open Ledger (Op)

/-! ## The drivers -/

/-- `-ENOMEM`. -/
def enomem : ℤ := -12

/-- The kinds of resources. -/
inductive Kind
  | major
  | disk
  | queue
  | fbInfo
  | pages
  | deferredIo
  | framebuffer
  /-- What `__free_pages` frees if it takes the address of the pages for their descriptor. -/
  | stray
  deriving DecidableEq

/-- A resource, with the number of the probe that acquires it. -/
structure Resource where
  kind : Kind
  serial : ℕ
  deriving DecidableEq

/-- How the steps of `virt_disk_probe` end; `devmKzalloc` : both allocations of memory. -/
structure DiskOutcome where
  devmKzalloc : Bool
  registerBlkdev : ℤ
  allocDisk : Bool
  blkInitQueue : Bool

/-- `virt_disk_probe` : the result, and what it does with resources. `put_disk` of no disk
does nothing. -/
def virtDiskProbe (n : ℕ) (o : DiskOutcome) : ℤ × List (Op Resource) :=
  if o.devmKzalloc = false then (enomem, [])
  else if o.registerBlkdev < 0 then (o.registerBlkdev, [])
  else if o.allocDisk = false then (enomem, [.acquire ⟨.major, n⟩, .release ⟨.major, n⟩])
  else if o.blkInitQueue = false then
    (enomem, [.acquire ⟨.major, n⟩, .acquire ⟨.disk, n⟩, .release ⟨.disk, n⟩])
  else (0, [.acquire ⟨.major, n⟩, .acquire ⟨.disk, n⟩, .acquire ⟨.queue, n⟩])

/-- `virt_disk_remove` of device `n`. -/
def virtDiskRemove (n : ℕ) : List (Op Resource) :=
  [.use ⟨.disk, n⟩, .release ⟨.queue, n⟩, .release ⟨.disk, n⟩, .release ⟨.major, n⟩]

/-- How the steps of `ssd1306fb_probe` end. -/
structure FbOutcome where
  framebufferAlloc : Bool
  getFreePages : Bool
  ssd1306fbInit : ℤ
  registerFramebuffer : ℤ

/-- `ssd1306fb_probe` of device `n` : the result, and what it acquires and releases. -/
def ssd1306fbProbe (n : ℕ) (o : FbOutcome) : ℤ × List (Op Resource) :=
  let info : Resource := ⟨.fbInfo, n⟩
  let pages : Resource := ⟨.pages, n⟩
  let defio : Resource := ⟨.deferredIo, n⟩
  if o.framebufferAlloc = false then (enomem, [])
  else if o.getFreePages = false then (enomem, [.acquire info, .release info])
  else if o.ssd1306fbInit < 0 then
    (o.ssd1306fbInit,
      [.acquire info, .acquire pages, .acquire defio, .release defio, .release info])
  else if o.registerFramebuffer ≠ 0 then
    (o.registerFramebuffer,
      [.acquire info, .acquire pages, .acquire defio, .release defio, .release info])
  else (0, [.acquire info, .acquire pages, .acquire defio, .acquire ⟨.framebuffer, n⟩])

/-- `ssd1306fb_remove` of device `n`. -/
def ssd1306fbRemove (n : ℕ) : List (Op Resource) :=
  [.release ⟨.framebuffer, n⟩, .release ⟨.deferredIo, n⟩, .release ⟨.stray, n⟩,
    .release ⟨.fbInfo, n⟩]

/-! ## Probes and removals -/

/-- The two drivers. -/
inductive Driver
  | virtDisk
  | ssd1306fb
  deriving DecidableEq

/-- A bound device, with the number of its probe. -/
structure Bound where
  driver : Driver
  dev : ℕ
  serial : ℕ
  deriving DecidableEq

/-- The resources a bound device should have. -/
def Bound.resources (b : Bound) : List Resource :=
  match b.driver with
  | .virtDisk => [⟨.queue, b.serial⟩, ⟨.disk, b.serial⟩, ⟨.major, b.serial⟩]
  | .ssd1306fb =>
    [⟨.fbInfo, b.serial⟩, ⟨.pages, b.serial⟩, ⟨.deferredIo, b.serial⟩, ⟨.framebuffer, b.serial⟩]

/-- The bound devices, the operations on resources so far, and the number of the next probe. -/
structure State where
  bound : List Bound
  log : List (Op Resource)
  next : ℕ

/-- Nothing is bound. -/
def start : State :=
  ⟨[], [], 0⟩

/-- The live resources. -/
def State.live (s : State) : List Resource :=
  Ledger.exec [] s.log

/-- The resources of what is bound. -/
def State.boundResources (s : State) : List Resource :=
  s.bound.flatMap Bound.resources

/-- A callback, with the outcomes of its steps. -/
inductive Call
  | virtDiskProbe (o : DiskOutcome)
  | virtDiskRemove
  | ssd1306fbProbe (o : FbOutcome)
  | ssd1306fbRemove

/-- A call for the device `dev`. -/
structure Action where
  dev : ℕ
  call : Call

/-- A probe of a device that is not bound binds it if it returns 0. -/
def probe (s : State) (driver : Driver) (dev : ℕ) (r : ℤ × List (Op Resource)) : Option State :=
  if s.bound.any fun b => b.driver = driver ∧ b.dev = dev then none
  else some
    { bound := if r.1 = 0 then ⟨driver, dev, s.next⟩ :: s.bound else s.bound
      log := s.log ++ r.2
      next := s.next + 1 }

/-- A removal of a bound device. -/
def remove (s : State) (driver : Driver) (dev : ℕ) (f : ℕ → List (Op Resource)) : Option State :=
  (s.bound.find? fun b => b.driver = driver ∧ b.dev = dev).map fun b =>
    { s with bound := s.bound.erase b, log := s.log ++ f b.serial }

/-- A callback of the driver core. -/
def step (s : State) (a : Action) : Option State :=
  match a.call with
  | .virtDiskProbe o => probe s .virtDisk a.dev (virtDiskProbe s.next o)
  | .virtDiskRemove => remove s .virtDisk a.dev virtDiskRemove
  | .ssd1306fbProbe o => probe s .ssd1306fb a.dev (ssd1306fbProbe s.next o)
  | .ssd1306fbRemove => remove s .ssd1306fb a.dev ssd1306fbRemove

/-! ## What a run should do -/

/-- Nothing is released but what is live, each resource as often as it was acquired but for
the live ones; the live ones are those of the bound devices, and none is of a probe that
failed. -/
structure Accounted (s : State) (a : Action) (s' : State) : Prop where
  valid : Ledger.Valid [] s'.log
  once : ∀ r, s'.log.count (.acquire r) = s'.log.count (.release r) + s'.live.count r
  live : s'.live.Perm s'.boundResources
  failed : (∀ b ∈ s'.bound, b.serial ≠ s.next) → ∀ r ∈ s'.live, r.serial ≠ s.next

/-- No probe of a disk fails for its queue, none of a framebuffer after it has its pages, and
no framebuffer is removed. -/
def Unwound (_ : State) (a : Action) (_ : State) : Prop :=
  match a.call with
  | .virtDiskProbe o =>
    ¬(o.devmKzalloc = true ∧ 0 ≤ o.registerBlkdev ∧ o.allocDisk = true ∧ o.blkInitQueue = false)
  | .virtDiskRemove => True
  | .ssd1306fbProbe o =>
    ¬(o.framebufferAlloc = true ∧ o.getFreePages = true ∧
      (o.ssd1306fbInit < 0 ∨ o.registerFramebuffer ≠ 0))
  | .ssd1306fbRemove => False

/-! ## One call -/

/-- The log is valid, the live resources are those of the bound devices, and the numbers of
the probes are used up to `next`. -/
structure Inv (s : State) : Prop where
  valid : Ledger.Valid [] s.log
  live : s.live.Perm s.boundResources
  serial : ∀ b ∈ s.bound, b.serial < s.next

theorem inv_start : Inv start where
  valid := True.intro
  live := .rfl
  serial _ hb := nomatch hb

variable {s s' : State} {live : List Resource}

theorem mem_resources {b : Bound} {r : Resource} (h : r ∈ b.resources) :
    r.serial = b.serial ∧ r.kind ≠ .stray := by
  obtain ⟨driver, dev, n⟩ := b
  cases driver with
  | virtDisk =>
    simp only [Bound.resources, List.mem_cons, List.not_mem_nil, or_false] at h
    rcases h with rfl | rfl | rfl <;> exact ⟨rfl, nofun⟩
  | ssd1306fb =>
    simp only [Bound.resources, List.mem_cons, List.not_mem_nil, or_false] at h
    rcases h with rfl | rfl | rfl | rfl <;> exact ⟨rfl, nofun⟩

/-- A live resource is of a bound device. -/
theorem Inv.mem_live (h : Inv s) {r : Resource} (hr : r ∈ s.live) :
    (∃ b ∈ s.bound, r.serial = b.serial) ∧ r.kind ≠ .stray := by
  obtain ⟨b, hb, hrb⟩ := List.mem_flatMap.mp (h.live.mem_iff.mp hr)
  obtain ⟨hserial, hkind⟩ := mem_resources hrb
  exact ⟨⟨b, hb, hserial⟩, hkind⟩

theorem Inv.not_live (h : Inv s) (kind : Kind) : ⟨kind, s.next⟩ ∉ s.live := by
  intro hr
  obtain ⟨⟨b, hb, hserial⟩, -⟩ := h.mem_live hr
  exact absurd (h.serial b hb) (by rw [← hserial]; exact Nat.lt_irrefl s.next)

/-- The next state keeps accounts if its operations are valid and leave what is bound. -/
theorem Inv.accounted (h : Inv s) {a : Action} {ops : List (Op Resource)}
    (hlog : s'.log = s.log ++ ops) (hvalid : Ledger.Valid s.live ops)
    (hlive : (Ledger.exec s.live ops).Perm s'.boundResources)
    (hserial : ∀ b ∈ s'.bound, b.serial < s'.next) : Inv s' ∧ Accounted s a s' := by
  have hexec : s'.live = Ledger.exec s.live ops := by
    rw [State.live, hlog, Ledger.exec_append, State.live]
  have hinv : Inv s' := by
    refine ⟨?_, hexec ▸ hlive, hserial⟩
    rw [hlog]
    exact Ledger.valid_append.mpr ⟨h.valid, hvalid⟩
  refine ⟨hinv, hinv.valid, fun r => ?_, hinv.live, fun hfailed r hr => ?_⟩
  · simpa [State.live] using Ledger.count_acquire hinv.valid r
  · obtain ⟨⟨b, hb, hrb⟩, -⟩ := hinv.mem_live hr
    rw [hrb]
    exact hfailed b hb

/-- A probe keeps accounts if it leaves the resources of its device, or none if it fails. -/
theorem accounted_probe (h : Inv s) {a : Action} {driver : Driver} {dev : ℕ}
    {r : ℤ × List (Op Resource)} (hstep : probe s driver dev r = some s')
    (hvalid : Ledger.Valid s.live r.2)
    (hlive : (Ledger.exec s.live r.2).Perm
      ((if r.1 = 0 then Bound.resources ⟨driver, dev, s.next⟩ else []) ++ s.live)) :
    Inv s' ∧ Accounted s a s' := by
  simp only [probe] at hstep
  split_ifs at hstep with hbound hret
  · obtain rfl := Option.some.inj hstep
    refine h.accounted rfl hvalid ?_ fun b hb => ?_
    · rw [if_pos hret] at hlive
      exact hlive.trans (h.live.append_left _)
    · rcases List.mem_cons.mp hb with rfl | hb
      · exact Nat.lt_succ_self s.next
      · exact Nat.lt_succ_of_lt (h.serial b hb)
  · obtain rfl := Option.some.inj hstep
    refine h.accounted rfl hvalid ?_ fun b hb => Nat.lt_succ_of_lt (h.serial b hb)
    rw [if_neg hret] at hlive
    exact hlive.trans h.live

/-- A failed probe that leaves one resource more does not. -/
theorem not_accounted_probe (h : Inv s) {a : Action} {driver : Driver} {dev : ℕ}
    {r : ℤ × List (Op Resource)} (hstep : probe s driver dev r = some s') (hret : r.1 ≠ 0)
    (hleak : Ledger.acquired r.2 = Ledger.released r.2 + 1) : ¬Accounted s a s' := by
  intro hacc
  simp only [probe] at hstep
  split_ifs at hstep
  obtain rfl := Option.some.inj hstep
  have hvalid := (Ledger.valid_append.mp hacc.valid).2
  have hlength := Ledger.length_exec hvalid
  have hafter := hacc.live.length_eq
  have hbefore := h.live.length_eq
  simp only [State.live, Ledger.exec_append] at hafter hbefore
  simp only [State.boundResources] at hafter hbefore
  omega

/-! ## The probes -/

variable {n : ℕ} {ret : ℤ} {rs : List Resource}

/-- What a probe should leave : the resources of its device if it returns 0, else none. -/
def Leaves (live : List Resource) (rs : List Resource) (r : ℤ × List (Op Resource)) : Prop :=
  Ledger.Valid live r.2 ∧
    (Ledger.exec live r.2).Perm ((if r.1 = 0 then rs else []) ++ live)

theorem enomem_ne_zero : enomem ≠ 0 := by
  decide

theorem leaves_nothing (h : ret ≠ 0) : Leaves live rs (ret, []) := by
  refine ⟨True.intro, ?_⟩
  rw [if_neg h]
  exact .rfl

/-- A resource that is released again. -/
theorem leaves_undone (h : ret ≠ 0) {r : Resource} (hr : r ∉ live) :
    Leaves live rs (ret, [.acquire r, .release r]) := by
  refine ⟨⟨hr, List.mem_cons_self, True.intro⟩, ?_⟩
  rw [if_neg h]
  simp [Ledger.apply]

theorem leaves_acquired (hrs : rs.Nodup) (hlive : ∀ r ∈ rs, r ∉ live) {rs' : List Resource}
    (hperm : rs'.Perm rs) : Leaves live rs (0, rs'.map .acquire) := by
  refine ⟨Ledger.valid_acquire (hperm.nodup_iff.mpr hrs) fun r hr => ?_, ?_⟩
  · exact hlive r (hperm.mem_iff.mp hr)
  · rw [if_pos rfl]
    exact (Ledger.exec_acquire rs').trans (hperm.append_right live)

theorem resources_nodup (b : Bound) : b.resources.Nodup := by
  obtain ⟨driver, dev, n⟩ := b
  cases driver <;> simp [Bound.resources]

theorem resources_not_live (hfresh : ∀ kind, ⟨kind, n⟩ ∉ live) {b : Bound} (hb : b.serial = n) :
    ∀ r ∈ b.resources, r ∉ live := by
  intro r hr
  have hserial : (⟨r.kind, n⟩ : Resource) = r := by rw [← hb, ← (mem_resources hr).1]
  rw [← hserial]
  exact hfresh r.kind

/-- The probes of a disk whose labels unwind. -/
theorem virtDiskProbe_leaves (hfresh : ∀ kind, ⟨kind, n⟩ ∉ live) {o : DiskOutcome}
    (hok : ¬(o.devmKzalloc = true ∧ 0 ≤ o.registerBlkdev ∧ o.allocDisk = true ∧
      o.blkInitQueue = false)) (dev : ℕ) :
    Leaves live (Bound.resources ⟨.virtDisk, dev, n⟩) (virtDiskProbe n o) := by
  unfold virtDiskProbe
  split_ifs with hdevm hmajor hdisk hqueue
  · exact leaves_nothing enomem_ne_zero
  · exact leaves_nothing (Int.ne_of_lt hmajor)
  · exact leaves_undone enomem_ne_zero (hfresh .major)
  · refine absurd ⟨?_, Int.not_lt.mp hmajor, ?_, hqueue⟩ hok
    · exact eq_true_of_ne_false hdevm
    · exact eq_true_of_ne_false hdisk
  · have hperm : [⟨.major, n⟩, ⟨.disk, n⟩, ⟨.queue, n⟩].Perm
        (Bound.resources ⟨.virtDisk, dev, n⟩) := (List.reverse_perm _).symm
    exact leaves_acquired (resources_nodup _) (resources_not_live hfresh rfl) hperm

theorem virtDiskProbe_leak {o : DiskOutcome} (hleak : o.devmKzalloc = true ∧
    0 ≤ o.registerBlkdev ∧ o.allocDisk = true ∧ o.blkInitQueue = false) :
    (virtDiskProbe n o).1 ≠ 0 ∧ Ledger.acquired (virtDiskProbe n o).2 =
      Ledger.released (virtDiskProbe n o).2 + 1 := by
  obtain ⟨hdevm, hmajor, hdisk, hqueue⟩ := hleak
  rw [virtDiskProbe, if_neg (by simp [hdevm]), if_neg (Int.not_lt.mpr hmajor),
    if_neg (by simp [hdisk]), if_pos hqueue]
  exact ⟨enomem_ne_zero, rfl⟩

/-- The probes of a framebuffer that fail before they have the pages, or not at all. -/
theorem ssd1306fbProbe_leaves (hfresh : ∀ kind, ⟨kind, n⟩ ∉ live) {o : FbOutcome}
    (hok : ¬(o.framebufferAlloc = true ∧ o.getFreePages = true ∧
      (o.ssd1306fbInit < 0 ∨ o.registerFramebuffer ≠ 0))) (dev : ℕ) :
    Leaves live (Bound.resources ⟨.ssd1306fb, dev, n⟩) (ssd1306fbProbe n o) := by
  unfold ssd1306fbProbe
  dsimp only
  split_ifs with hinfo hpages hinit hreg
  · exact leaves_nothing enomem_ne_zero
  · exact leaves_undone enomem_ne_zero (hfresh .fbInfo)
  · exact absurd ⟨eq_true_of_ne_false hinfo, eq_true_of_ne_false hpages, .inl hinit⟩ hok
  · exact absurd ⟨eq_true_of_ne_false hinfo, eq_true_of_ne_false hpages, .inr hreg⟩ hok
  · have hperm := List.Perm.refl (Bound.resources ⟨.ssd1306fb, dev, n⟩)
    exact leaves_acquired (resources_nodup _) (resources_not_live hfresh rfl) hperm

theorem ssd1306fbProbe_leak {o : FbOutcome} (hleak : o.framebufferAlloc = true ∧
    o.getFreePages = true ∧ (o.ssd1306fbInit < 0 ∨ o.registerFramebuffer ≠ 0)) :
    (ssd1306fbProbe n o).1 ≠ 0 ∧ Ledger.acquired (ssd1306fbProbe n o).2 =
      Ledger.released (ssd1306fbProbe n o).2 + 1 := by
  obtain ⟨hinfo, hpages, hfail⟩ := hleak
  rw [ssd1306fbProbe, if_neg (by simp [hinfo]), if_neg (by simp [hpages])]
  by_cases hinit : o.ssd1306fbInit < 0
  · rw [if_pos hinit]
    exact ⟨Int.ne_of_lt hinit, rfl⟩
  · have hreg := hfail.resolve_left hinit
    rw [if_neg hinit, if_pos hreg]
    exact ⟨hreg, rfl⟩

/-! ## The removals -/

/-- What a removal finds : the live resources are those of its device and of the others. -/
theorem of_remove (h : Inv s) {driver : Driver} {dev : ℕ} {f : ℕ → List (Op Resource)}
    (hstep : remove s driver dev f = some s') :
    ∃ b ∈ s.bound, b.driver = driver ∧ s'.bound = s.bound.erase b ∧
      s'.log = s.log ++ f b.serial ∧ s'.next = s.next ∧
        s.live.Perm (b.resources ++ s'.boundResources) := by
  obtain ⟨b, hb, rfl⟩ := Option.map_eq_some_iff.mp hstep
  have hmem := List.mem_of_find?_eq_some hb
  have hdriver : b.driver = driver ∧ b.dev = dev := by simpa using List.find?_some hb
  refine ⟨b, hmem, hdriver.1, rfl, rfl, rfl, h.live.trans ?_⟩
  have hperm := (List.perm_cons_erase hmem).flatMap_right Bound.resources
  simpa [State.boundResources] using hperm

theorem accounted_virtDiskRemove (h : Inv s) {a : Action} {dev : ℕ}
    (hstep : remove s .virtDisk dev virtDiskRemove = some s') : Inv s' ∧ Accounted s a s' := by
  obtain ⟨⟨driver, dev', n⟩, hb, hdriver, hbound, hlog, hnext, hlive⟩ := of_remove h hstep
  dsimp only at hdriver
  subst hdriver
  have hdisk : (⟨.disk, n⟩ : Resource) ∈ s.live := hlive.mem_iff.mpr (by simp [Bound.resources])
  refine h.accounted hlog ⟨hdisk, Ledger.valid_release hlive⟩ (Ledger.exec_release hlive)
    fun b' hb' => ?_
  rw [hnext]
  rw [hbound] at hb'
  exact h.serial b' (List.mem_of_mem_erase hb')

/-- The pages are not what `ssd1306fb_remove` frees. -/
theorem not_accounted_ssd1306fbRemove (h : Inv s) {a : Action} {dev : ℕ}
    (hstep : remove s .ssd1306fb dev ssd1306fbRemove = some s') : ¬Accounted s a s' := by
  intro hacc
  obtain ⟨b, -, -, -, hlog, -, -⟩ := of_remove h hstep
  have hvalid := hacc.valid
  rw [hlog] at hvalid
  obtain ⟨-, -, hstray, -⟩ := (Ledger.valid_append.mp hvalid).2
  have hlive : (⟨.stray, b.serial⟩ : Resource) ∈ s.live :=
    List.mem_of_mem_erase (List.mem_of_mem_erase hstray)
  exact (h.mem_live hlive).2 rfl

/-! ## Runs -/

/-- A call keeps accounts exactly if it is none of those that do not unwind. -/
theorem accounted_iff {a : Action} (h : Inv s) (hstep : step s a = some s') :
    (Accounted s a s' ↔ Unwound s a s') ∧ (Unwound s a s' → Inv s') := by
  obtain ⟨dev, call⟩ := a
  have hfresh := h.not_live
  cases call with
  | virtDiskProbe o =>
    have hok := fun hok => accounted_probe (a := ⟨dev, .virtDiskProbe o⟩) h hstep
      (virtDiskProbe_leaves hfresh hok dev).1 (virtDiskProbe_leaves hfresh hok dev).2
    refine ⟨⟨fun hacc hleak => ?_, fun hu => (hok hu).2⟩, fun hu => (hok hu).1⟩
    obtain ⟨hret, hlen⟩ := virtDiskProbe_leak (n := s.next) hleak
    exact not_accounted_probe h hstep hret hlen hacc
  | virtDiskRemove =>
    obtain ⟨hinv, hacc⟩ := accounted_virtDiskRemove (a := ⟨dev, .virtDiskRemove⟩) h hstep
    exact ⟨iff_of_true hacc True.intro, fun _ => hinv⟩
  | ssd1306fbProbe o =>
    have hok := fun hok => accounted_probe (a := ⟨dev, .ssd1306fbProbe o⟩) h hstep
      (ssd1306fbProbe_leaves hfresh hok dev).1 (ssd1306fbProbe_leaves hfresh hok dev).2
    refine ⟨⟨fun hacc hleak => ?_, fun hu => (hok hu).2⟩, fun hu => (hok hu).1⟩
    obtain ⟨hret, hlen⟩ := ssd1306fbProbe_leak (n := s.next) hleak
    exact not_accounted_probe h hstep hret hlen hacc
  | ssd1306fbRemove =>
    exact ⟨iff_of_false (not_accounted_ssd1306fbRemove h hstep) not_false, fun hno => hno.elim⟩

/-- In every sequence of probes and removals of any devices, whatever fails : each resource
is released once and only while it is live, a failed probe leaves none, and the live ones are
those of the bound devices, if and only if no probe of a disk fails for its queue, none of a
framebuffer after it has its pages, and no framebuffer is removed. -/
theorem resources_iff (as : List Action) :
    Transition.Always step Accounted start as ↔ Transition.Always step Unwound start as := by
  refine Transition.always_congr (I := Inv) (fun s a s' h hstep => (accounted_iff h hstep).1)
    (fun s a s' h hstep hacc => ?_) inv_start
  obtain ⟨hiff, hinv⟩ := accounted_iff h hstep
  exact hinv (hiff.mp hacc)

/-- A disk whose queue fails leaves the major number, a framebuffer whose panel fails leaves
the pages, and a removed framebuffer leaves them too. -/
theorem left_live :
    let noQueue : Action := ⟨0, .virtDiskProbe ⟨true, 240, true, false⟩⟩
    let noPanel : Action := ⟨0, .ssd1306fbProbe ⟨true, true, -121, 0⟩⟩
    let fb : Action := ⟨0, .ssd1306fbProbe ⟨true, true, 0, 0⟩⟩
    let gone : Action := ⟨0, .ssd1306fbRemove⟩
    (Transition.run step start [noQueue]).map State.live = some [⟨.major, 0⟩] ∧
      (Transition.run step start [noPanel]).map State.live = some [⟨.pages, 0⟩] ∧
      (Transition.run step start [fb, gone]).map State.live = some [⟨.pages, 0⟩] ∧
      ¬Transition.Always step Accounted start [noQueue] ∧
      ¬Transition.Always step Accounted start [noPanel] ∧
      ¬Transition.Always step Accounted start [fb, gone] := by
  intro noQueue noPanel fb gone
  refine ⟨by decide, by decide, by decide, fun h => ?_, fun h => ?_, fun h => ?_⟩
  · exact absurd (h _ rfl).1.live (by decide)
  · exact absurd (h _ rfl).1.live (by decide)
  · obtain ⟨-, h⟩ := h _ rfl
    exact absurd (h _ rfl).1.live (by decide)

end ResourceLedger

end LinuxDriverKb
