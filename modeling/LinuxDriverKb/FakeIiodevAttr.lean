import LinuxDriverKb.FakeIiodev
import LinuxDriverKb.Lib.Transition

/-!
# The attributes of `fake_iiodev.c`

What user space reads and writes, interleaved with the ticks of the simulation.

`period_iff` : the period stays between one and five seconds, and a write of it is accepted
exactly in that range, if and only if no write outside the range is made. The code tests the
range and drops the error.

`registers_iff` : the thresholds and enables are registers of their own if and only if every
value written fits in its cell and every enable written is the one the channel has. The two
directions of a channel share the cell of the enable, and the cells of the thresholds are
bytes.
-/

set_option autoImplicit false

namespace LinuxDriverKb

namespace FakeIiodev

/-! ## The period -/

/-- Armed between `1 * HZ` and `5 * HZ` ticks ahead. -/
def ArmedInRange (P : Params) (s : State) (timer : Option ℕ) : Prop :=
  ∃ d ∈ timer, s.jiffies + 1 * P.hz ≤ d ∧ d ≤ s.jiffies + 5 * P.hz

/-- `freq` is in range. -/
def FreqInRange (p : Priv) : Prop :=
  1 ≤ p.freq ∧ p.freq ≤ 5

/-- The writes that must not be refused. -/
def Acceptable (val : ℤ) (mask : Mask) : Prop :=
  mask = .intTime ∧ 1 ≤ val ∧ val ≤ 5

instance (val : ℤ) (mask : Mask) : Decidable (Acceptable val mask) :=
  inferInstanceAs (Decidable (mask = .intTime ∧ 1 ≤ val ∧ val ≤ 5))

/-- A `write_raw` from `s` to `s'` returns 0 and is read back if it is acceptable; else it
returns an error and changes neither the period nor the deadline. -/
def WritesPeriod (P : Params) (s : State) (val : ℤ) (mask : Mask) (s' : State) : Prop :=
  let ret := (writeRaw P.hz s.jiffies s.priv val mask).1
  if Acceptable val mask then
    ret = 0 ∧ (∀ chan, readRaw s'.priv chan .intTime = .ok (val, 0)) ∧
      ArmedInRange P s s'.priv.timer
  else ret < 0 ∧ s'.priv.freq = s.priv.freq ∧ s'.priv.timer = s.priv.timer

/-- What a step does to the period and to the deadline. -/
def KeepsPeriod (P : Params) (s : State) (a : Action) (s' : State) : Prop :=
  FreqInRange s'.priv ∧
    match a with
    | .expire => ArmedInRange P s s'.priv.timer
    | .call (.writeRaw val mask) => WritesPeriod P s val mask s'
    | _ => s'.priv.timer = s.priv.timer

/-- No period is written outside its range. -/
def PeriodInRange : Action → Prop
  | .call (.writeRaw val .intTime) => 1 ≤ val ∧ val ≤ 5
  | _ => True

variable {P : Params} {s s' : State}

theorem step_call {c : Call} (h : step P s (.call c) = some s') :
    s' = { s with priv := c.exec P.hz s.jiffies s.priv } := by
  simp only [step] at h
  split_ifs at h
  exact (Option.some.inj h).symm

theorem offered_of_step {c : Call} (h : step P s (.call c) = some s') : c.Offered := by
  simp only [step] at h
  split_ifs at h with hoff
  exact hoff

theorem step_expire (h : step P s .expire = some s') :
    s' = { s with priv := (luxAutoChange P.hz s.jiffies s.priv).2 } := by
  simp only [step] at h
  split_ifs at h
  exact (Option.some.inj h).symm

theorem armedInRange_ticks {freq : ℕ} (h : 1 ≤ freq) (h' : freq ≤ 5) :
    ArmedInRange P s (some (s.jiffies + ticks P.hz freq)) := by
  have hlow : 1 * P.hz ≤ freq * P.hz := Nat.mul_le_mul_right P.hz h
  have hhigh : freq * P.hz ≤ 5 * P.hz := Nat.mul_le_mul_right P.hz h'
  refine ⟨_, rfl, ?_, ?_⟩
  · rw [ticks_eq P h']
    omega
  · rw [ticks_eq P h']
    omega

theorem freqInRange_expire (h : FreqInRange s.priv) (hstep : step P s .expire = some s') :
    KeepsPeriod P s .expire s' := by
  obtain rfl := step_expire hstep
  exact ⟨h, armedInRange_ticks h.1 h.2⟩

/-- An acceptable write. -/
theorem writesPeriod_of_acceptable {val : ℤ} (h : 1 ≤ val) (h' : val ≤ 5)
    (hstep : step P s (.call (.writeRaw val .intTime)) = some s') :
    KeepsPeriod P s (.call (.writeRaw val .intTime)) s' := by
  obtain rfl := step_call hstep
  have hfreq : FreqInRange { s.priv with freq := (val % 2 ^ 32).toNat } := by
    constructor <;> dsimp only <;> omega
  refine ⟨hfreq, ?_⟩
  have hread : CInt.toInt32 ((val % 2 ^ 32).toNat : ℕ) = val := by
    rw [CInt.toInt32_eq] <;> omega
  have hok : Acceptable val .intTime := ⟨rfl, h, h'⟩
  dsimp only
  rw [WritesPeriod, if_pos hok]
  refine ⟨rfl, fun chan => ?_, armedInRange_ticks hfreq.1 hfreq.2⟩
  exact congrArg (fun v : ℤ => Except.ok (v, 0)) hread

/-- A write outside the range returns 0. -/
theorem not_writesPeriod {val : ℤ} (h : ¬(1 ≤ val ∧ val ≤ 5)) :
    ¬WritesPeriod P s val .intTime s' := by
  intro hw
  rw [WritesPeriod, if_neg fun hok => h hok.2] at hw
  exact absurd hw.1 (by simp [writeRaw])

theorem writesPeriod_refused {val : ℤ} {mask : Mask} (hmask : mask ≠ .intTime)
    (hstep : step P s (.call (.writeRaw val mask)) = some s') :
    s' = s ∧ WritesPeriod P s val mask s' := by
  obtain rfl := step_call hstep
  have hw : writeRaw P.hz s.jiffies s.priv val mask = (einval, s.priv) := if_pos hmask
  refine ⟨by simp [Call.exec, hw], ?_⟩
  rw [WritesPeriod, if_neg fun hok => hmask hok.1, hw]
  exact ⟨(by decide : einval < 0), by simp [Call.exec, hw], by simp [Call.exec, hw]⟩

/-- The other steps leave the period and the deadline as they are. -/
theorem exec_other {c : Call} (hc : ∀ val mask, c ≠ .writeRaw val mask) (jiffies : ℕ) (p : Priv) :
    (c.exec P.hz jiffies p).freq = p.freq ∧ (c.exec P.hz jiffies p).timer = p.timer := by
  cases c with
  | writeRaw val mask => exact absurd rfl (hc val mask)
  | writeEventValue chan dir val => cases dir <;> exact ⟨rfl, rfl⟩
  | readRaw | readEventConfig | writeEventConfig | readEventValue => exact ⟨rfl, rfl⟩

/-- One step keeps the period in range, and treats a write as it must, exactly when it
writes no period outside the range. -/
theorem keepsPeriod_iff {a : Action} (h : FreqInRange s.priv) (hstep : step P s a = some s') :
    KeepsPeriod P s a s' ↔ PeriodInRange a := by
  cases a with
  | tick =>
    obtain rfl := Option.some.inj hstep
    exact iff_of_true ⟨h, rfl⟩ True.intro
  | expire => exact iff_of_true (freqInRange_expire h hstep) True.intro
  | call c =>
    by_cases hc : ∃ val mask, c = .writeRaw val mask
    · obtain ⟨val, mask, rfl⟩ := hc
      by_cases hmask : mask = .intTime
      · subst hmask
        refine ⟨fun hk => by_contra fun hval => not_writesPeriod hval hk.2, fun hval => ?_⟩
        exact writesPeriod_of_acceptable hval.1 hval.2 hstep
      · obtain ⟨rfl, hw⟩ := writesPeriod_refused hmask hstep
        cases mask with
        | intTime => exact absurd rfl hmask
        | processed | other => exact iff_of_true ⟨h, hw⟩ True.intro
    · have hother := exec_other (P := P) (fun val mask hv => hc ⟨val, mask, hv⟩) s.jiffies s.priv
      obtain rfl := step_call hstep
      have hfreq : FreqInRange (c.exec P.hz s.jiffies s.priv) := by
        rw [FreqInRange, hother.1]
        exact h
      cases c with
      | writeRaw val mask => exact absurd ⟨val, mask, rfl⟩ hc
      | readRaw | readEventConfig | writeEventConfig | readEventValue | writeEventValue =>
        exact iff_of_true ⟨hfreq, hother.2⟩ True.intro

variable (P)

/-- In every run after the probe : the period is in range at the start and after every step,
the timer is armed one to five seconds ahead by the probe and by every re-arm, and a write
is accepted and read back exactly if it is in range and changes nothing else if it is not,
if and only if every period written is in range. -/
theorem period_iff (jiffies : ℕ) (as : List Action) :
    let s : State := ⟨jiffies, probed P.hz jiffies⟩
    (FreqInRange s.priv ∧ ArmedInRange P s s.priv.timer ∧
        Transition.Always (step P) (KeepsPeriod P) s as) ↔
      Transition.Always (step P) (fun _ a _ => PeriodInRange a) s as := by
  intro s
  have hfreq : FreqInRange s.priv := ⟨Nat.le_refl 1, (by decide : 1 ≤ 5)⟩
  have hsteps : ∀ t a t', FreqInRange t.priv → step P t a = some t' →
      (KeepsPeriod P t a t' ↔ PeriodInRange a) := fun _ _ _ => keepsPeriod_iff
  rw [← Transition.always_congr hsteps (fun _ _ _ _ _ hk => hk.1) hfreq]
  exact ⟨fun h => h.2.2, fun h => ⟨hfreq, armedInRange_ticks (by decide) (by decide), h⟩⟩

/-- A timer that ticks once a second. -/
def oneHz : Params where
  hz := 1
  hz_pos := Nat.one_pos
  hz_le := by decide

/-- A period of 0 is accepted : the write returns 0, and the timer is due at once. -/
theorem period_zero_accepted :
    let s : State := ⟨7, probed 1 7⟩
    (writeRaw 1 7 s.priv 0 .intTime).1 = 0 ∧
      (writeRaw 1 7 s.priv 0 .intTime).2.freq = 0 ∧
      (writeRaw 1 7 s.priv 0 .intTime).2.timer = some 7 ∧
      ¬Transition.Always (step oneHz) (KeepsPeriod oneHz) s [.call (.writeRaw 0 .intTime)] := by
  refine ⟨rfl, rfl, rfl, fun h => ?_⟩
  obtain ⟨⟨hfreq, -⟩, -⟩ := h _ rfl
  exact absurd hfreq.1 (by decide)

/-! ## The registers of the events -/

/-- The kinds of attributes an event has. -/
inductive EventInfo
  | value
  | enable
  deriving DecidableEq

/-- An attribute : of a direction that the event specification has. -/
structure Attr where
  chan : Fin 2
  dir : Direction
  info : EventInfo
  spec : dir ∈ eventSpec
  deriving DecidableEq

/-- What a read of the attribute returns. -/
def Attr.read (x : Attr) (p : Priv) : Except ℤ ℤ :=
  match x.info with
  | .enable => .ok (readEventConfig p x.chan x.dir)
  | .value => (readEventValue p x.chan x.dir).map Prod.fst

/-- A write to an attribute. -/
def Attr.write (x : Attr) (p : Priv) (v : ℤ) : ℤ × Priv :=
  match x.info with
  | .enable => writeEventConfig p x.chan x.dir v
  | .value => writeEventValue p x.chan x.dir v

/-- The values the cell of the attribute can hold. -/
def Attr.Storable (x : Attr) (v : ℤ) : Prop :=
  match x.info with
  | .enable => v = 0 ∨ v = 1
  | .value => 0 ≤ v ∧ v ≤ 255

/-- The write that the step makes to an attribute. -/
def written : Action → Option (Attr × ℤ)
  | .call (.writeEventConfig chan dir state) =>
    if h : dir ∈ eventSpec then some (⟨chan, dir, .enable, h⟩, state) else none
  | .call (.writeEventValue chan dir val) =>
    if h : dir ∈ eventSpec then some (⟨chan, dir, .value, h⟩, val) else none
  | _ => none

/-- The state, and for each attribute the last value whose write returned 0. -/
structure Logged where
  state : State
  last : Attr → Option ℤ

/-- The values last written after the step `a`. -/
def Logged.record (l : Logged) (a : Action) : Attr → Option ℤ :=
  match written a with
  | some (x, v) =>
    if (x.write l.state.priv v).1 = 0 then Function.update l.last x (some v) else l.last
  | none => l.last

/-- One action, with the values that are written and pushed. -/
def stepLog (P : Params) (l : Logged) (a : Action) : Option Logged :=
  (step P l.state a).map fun s => ⟨s, l.record a⟩

/-- Every attribute reads as the last value written to it. -/
def Logged.Faithful (l : Logged) : Prop :=
  ∀ x v, l.last x = some v → x.read l.state.priv = .ok v

/-- After the step every attribute reads as last written. A write changes what no other
attribute reads, and if its value cannot be stored it is refused and changes nothing. The other
steps change what no attribute reads. -/
def KeepsRegisters (l : Logged) (a : Action) (l' : Logged) : Prop :=
  l'.Faithful ∧
    match written a with
    | some (x, v) =>
      (∀ y ≠ x, y.read l'.state.priv = y.read l.state.priv) ∧
        (¬x.Storable v → (x.write l.state.priv v).1 < 0 ∧ l'.state.priv = l.state.priv)
    | none => ∀ y : Attr, y.read l'.state.priv = y.read l.state.priv

/-- The value written fits in a byte, the enable written is the one the channel has. -/
def FitsCell (l : Logged) (a : Action) (_ : Logged) : Prop :=
  match a with
  | .call (.writeEventConfig chan _ state) => decide (state ≠ 0) = l.state.priv.event chan
  | .call (.writeEventValue _ _ val) => 0 ≤ val ∧ val ≤ 255
  | _ => True

theorem mem_eventSpec {dir : Direction} : dir ∈ eventSpec ↔ dir = .rising ∨ dir = .falling := by
  simp [eventSpec]

theorem Attr.read_enable (chan : Fin 2) (dir : Direction) (h : dir ∈ eventSpec) (p : Priv) :
    Attr.read ⟨chan, dir, .enable, h⟩ p = .ok (if p.event chan then 1 else 0) :=
  rfl

/-- What is read depends on the cells of the events alone. -/
theorem Attr.read_congr {p q : Priv} (hevent : p.event = q.event)
    (hhigh : p.highThresh = q.highThresh) (hlow : p.lowThresh = q.lowThresh) (y : Attr) :
    y.read p = y.read q := by
  obtain ⟨chan, dir, info, h⟩ := y
  cases info with
  | enable => rw [read_enable, read_enable, hevent]
  | value => cases dir <;> simp only [Attr.read, readEventValue, hhigh, hlow]

/-- A write of the enable that the channel has changes nothing. -/
theorem writeEventConfig_self {p : Priv} {chan : Fin 2} {state : ℤ}
    (h : decide (state ≠ 0) = p.event chan) (dir : Direction) :
    (writeEventConfig p chan dir state).2 = p := by
  simp only [writeEventConfig, h, Function.update_eq_self]

/-- A threshold in range is read back. -/
theorem writeEventValue_read {chan : Fin 2} {dir : Direction} (h : dir ∈ eventSpec) {val : ℤ}
    (hval : 0 ≤ val) (hval' : val ≤ 255) (p : Priv) :
    Attr.read ⟨chan, dir, .value, h⟩ (writeEventValue p chan dir val).2 = .ok val := by
  have hcell := ofInt_toNat hval hval'
  rcases mem_eventSpec.mp h with rfl | rfl
  · simp [Attr.read, writeEventValue, readEventValue, Except.map, hcell]
  · simp [Attr.read, writeEventValue, readEventValue, Except.map, hcell]

/-- The write of a threshold changes what no other attribute reads. -/
theorem writeEventValue_read_of_ne {chan : Fin 2} {dir : Direction} (h : dir ∈ eventSpec)
    (val : ℤ) (p : Priv) {y : Attr} (hy : y ≠ ⟨chan, dir, .value, h⟩) :
    y.read (writeEventValue p chan dir val).2 = y.read p := by
  obtain ⟨chan', dir', info', h'⟩ := y
  cases info' with
  | enable => cases dir <;> rfl
  | value =>
    by_cases hdir : dir' = dir
    · -- The same array : the channel is another one.
      have hchan : chan' ≠ chan := fun hchan => hy (by simp [hchan, hdir])
      subst hdir
      cases dir' <;> simp [Attr.read, writeEventValue, readEventValue, hchan]
    · cases dir <;> cases dir' <;> first | exact absurd rfl hdir | rfl

theorem writeEventValue_ret {dir : Direction} (h : dir ∈ eventSpec) (p : Priv) (chan : Fin 2)
    (val : ℤ) : (writeEventValue p chan dir val).1 = 0 := by
  rcases mem_eventSpec.mp h with rfl | rfl <;> rfl

variable {P : Params} {l l' : Logged}

/-- A write that is read back and leaves the other attributes alone. -/
theorem Logged.Faithful.update (h : l.Faithful) {x : Attr} {v : ℤ} {s : State}
    (hx : x.read s.priv = .ok v) (hframe : ∀ y ≠ x, y.read s.priv = y.read l.state.priv) :
    Logged.Faithful ⟨s, Function.update l.last x (some v)⟩ := by
  intro y w hw
  by_cases hyx : y = x
  · subst hyx
    have hv : v = w := by simpa using hw
    rw [hx, hv]
  · have hlast : l.last y = some w := by simpa [Function.update_of_ne hyx] using hw
    rw [hframe y hyx]
    exact h y w hlast

theorem Logged.Faithful.congr (h : l.Faithful) {s : State}
    (hread : ∀ y : Attr, y.read s.priv = y.read l.state.priv) :
    Logged.Faithful ⟨s, l.last⟩ :=
  fun y w hw => (hread y).trans (h y w hw)

/-- A write of an enable keeps the registers apart exactly if it changes nothing. -/
theorem keepsRegisters_enable {chan : Fin 2} {dir : Direction} {state : ℤ} (hl : l.Faithful)
    (hstep : stepLog P l (.call (.writeEventConfig chan dir state)) = some l') :
    KeepsRegisters l (.call (.writeEventConfig chan dir state)) l' ↔
      decide (state ≠ 0) = l.state.priv.event chan := by
  obtain ⟨s, hs, rfl⟩ := Option.map_eq_some_iff.mp hstep
  obtain ⟨hspec, hstate⟩ : dir ∈ eventSpec ∧ (state = 0 ∨ state = 1) := offered_of_step hs
  obtain rfl := step_call hs
  simp only [KeepsRegisters, Logged.record, written, dif_pos hspec]
  constructor
  · -- The other direction of the channel reads the same cell.
    rintro ⟨-, hframe, -⟩
    obtain ⟨dir', hspec', hdir⟩ : ∃ dir' ∈ eventSpec, dir' ≠ dir := by
      rcases mem_eventSpec.mp hspec with rfl | rfl
      · exact ⟨.falling, mem_eventSpec.mpr (.inr rfl), nofun⟩
      · exact ⟨.rising, mem_eventSpec.mpr (.inl rfl), nofun⟩
    have hread := hframe ⟨chan, dir', .enable, hspec'⟩ (by simp [hdir])
    rw [Attr.read_enable, Attr.read_enable] at hread
    simp only [Call.exec, writeEventConfig, Function.update_self] at hread
    by_cases hzero : state = 0 <;> cases hevent : l.state.priv.event chan <;>
      simp [hzero, hevent] at hread ⊢
  · intro hsame
    have hpriv : (Call.writeEventConfig chan dir state).exec P.hz l.state.jiffies l.state.priv =
        l.state.priv := writeEventConfig_self hsame dir
    rw [hpriv]
    refine ⟨hl.update ?_ fun _ _ => rfl, fun _ _ => rfl, fun hstore => absurd hstate hstore⟩
    rw [Attr.read_enable, ← hsame]
    rcases hstate with rfl | rfl <;> rfl

/-- A write of a value keeps the registers apart exactly if it fits in its cell. -/
theorem keepsRegisters_value {chan : Fin 2} {dir : Direction} {val : ℤ} (hl : l.Faithful)
    (hstep : stepLog P l (.call (.writeEventValue chan dir val)) = some l') :
    KeepsRegisters l (.call (.writeEventValue chan dir val)) l' ↔ 0 ≤ val ∧ val ≤ 255 := by
  obtain ⟨s, hs, rfl⟩ := Option.map_eq_some_iff.mp hstep
  have hspec : dir ∈ eventSpec := offered_of_step hs
  obtain rfl := step_call hs
  have hret := writeEventValue_ret hspec l.state.priv chan val
  simp only [KeepsRegisters, Logged.record, written, dif_pos hspec, Attr.write, hret, if_pos]
  constructor
  · rintro ⟨-, -, hrefused⟩
    by_contra hstore
    exact absurd (hrefused hstore).1 (by decide)
  · rintro ⟨hval, hval'⟩
    have hframe := fun (y : Attr) (hy : y ≠ ⟨chan, dir, .value, hspec⟩) =>
      writeEventValue_read_of_ne hspec val l.state.priv hy
    refine ⟨hl.update ?_ hframe, hframe, fun hstore => absurd ⟨hval, hval'⟩ hstore⟩
    exact writeEventValue_read hspec hval hval' l.state.priv

/-- The other steps change no register. -/
theorem keepsRegisters_other {a : Action} (hl : l.Faithful) (ha : written a = none)
    (hstep : stepLog P l a = some l')
    (hcells : l'.state.priv.event = l.state.priv.event ∧
      l'.state.priv.highThresh = l.state.priv.highThresh ∧
      l'.state.priv.lowThresh = l.state.priv.lowThresh) : KeepsRegisters l a l' := by
  obtain ⟨s, hs, rfl⟩ := Option.map_eq_some_iff.mp hstep
  have hread : ∀ y : Attr, y.read s.priv = y.read l.state.priv :=
    Attr.read_congr hcells.1 hcells.2.1 hcells.2.2
  simp only [KeepsRegisters, Logged.record, ha]
  exact ⟨hl.congr hread, hread⟩

/-- One step treats the attributes as registers exactly when what it writes fits. -/
theorem keepsRegisters_iff {a : Action} (hl : l.Faithful) (hstep : stepLog P l a = some l') :
    KeepsRegisters l a l' ↔ FitsCell l a l' := by
  obtain ⟨s, hs, hs'⟩ := Option.map_eq_some_iff.mp hstep
  cases a with
  | tick =>
    obtain rfl := Option.some.inj hs
    subst hs'
    exact iff_of_true (keepsRegisters_other hl rfl hstep ⟨rfl, rfl, rfl⟩) True.intro
  | expire =>
    obtain rfl := step_expire hs
    subst hs'
    exact iff_of_true (keepsRegisters_other hl rfl hstep ⟨rfl, rfl, rfl⟩) True.intro
  | call c =>
    cases c with
    | writeEventConfig chan dir state => exact keepsRegisters_enable hl hstep
    | writeEventValue chan dir val => exact keepsRegisters_value hl hstep
    | writeRaw val mask =>
      obtain rfl := step_call hs
      subst hs'
      refine iff_of_true (keepsRegisters_other hl rfl hstep ?_) True.intro
      by_cases hmask : mask = .intTime <;> simp [Call.exec, writeRaw, hmask]
    | readRaw | readEventConfig | readEventValue =>
      obtain rfl := step_call hs
      subst hs'
      exact iff_of_true (keepsRegisters_other hl rfl hstep ⟨rfl, rfl, rfl⟩) True.intro

variable (P)

/-- From any state, in every run : after every step each attribute reads as the last value
written to it with success, no write changes what another attribute reads, and a value that
cannot be stored is refused, if and only if every value written fits in a byte and every
enable written is the one its channel has. -/
theorem registers_iff (s : State) (as : List Action) :
    Transition.Always (stepLog P) KeepsRegisters ⟨s, fun _ => none⟩ as ↔
      Transition.Always (stepLog P) FitsCell ⟨s, fun _ => none⟩ as := by
  have hsteps : ∀ l a l', Logged.Faithful l → stepLog P l a = some l' →
      (KeepsRegisters l a l' ↔ FitsCell l a l') := fun _ _ _ => keepsRegisters_iff
  exact Transition.always_congr hsteps (fun _ _ _ _ _ hk => hk.1) fun _ _ h => nomatch h

/-- The rising threshold of 256 is accepted and reads as 0; the enable of the rising events
of a channel enables the falling ones. -/
theorem registers_shared :
    let p := probed 1 0
    let rising : Attr := ⟨0, .rising, .enable, by decide⟩
    let falling : Attr := ⟨0, .falling, .enable, by decide⟩
    let high : Attr := ⟨0, .rising, .value, by decide⟩
    (high.write p 256).1 = 0 ∧ high.read (high.write p 256).2 = .ok 0 ∧
      falling.read p = .ok 0 ∧ falling.read (rising.write p 1).2 = .ok 1 ∧
      ¬Transition.Always (stepLog oneHz) KeepsRegisters ⟨⟨0, p⟩, fun _ => none⟩
        [.call (.writeEventValue 0 .rising 256)] ∧
      ¬Transition.Always (stepLog oneHz) KeepsRegisters ⟨⟨0, p⟩, fun _ => none⟩
        [.call (.writeEventConfig 0 .rising 1)] := by
  intro p rising falling high
  refine ⟨rfl, rfl, rfl, rfl, fun h => ?_, fun h => ?_⟩
  · obtain ⟨⟨-, -, hrefused⟩, -⟩ := h _ rfl
    exact absurd (hrefused fun hstore => absurd hstore.2 (by decide)).1 (by decide)
  · obtain ⟨⟨-, hframe, -⟩, -⟩ := h _ rfl
    exact absurd (hframe falling (by decide)) (by decide)

end FakeIiodev

end LinuxDriverKb
