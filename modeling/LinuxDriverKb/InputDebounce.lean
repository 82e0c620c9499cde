import LinuxDriverKb.Lib.Transition
import Mathlib.Data.List.Chain

/-!
# The debouncing of the input device

`gpio_interrupt_handler` of `input-drv.c` arms one timer `msecs_to_jiffies(50)` after every
edge of the line; `debounce_timer_handler` samples the line and reports it to the input core.

Time is discrete, and goes on once no timer is due. `debounced` : in every run in which no two
edges are exactly the delay apart, the handler runs the delay after each edge that no other
follows within it, once and at no other time, and later than the delay after the last edge the
key is what the line is. Every waveform has such a run (`exists_run_waveform`).
-/

set_option autoImplicit false

namespace LinuxDriverKb

namespace InputDevice

/-! ## The driver -/

/-- A level of the line, and when : an edge to it, or a handler that samples it. -/
structure Sample where
  time : ℕ
  level : Bool
  deriving DecidableEq

/-- `timer` is the deadline of the pending timer. The values that the input core has passed
on, the edges and the runs of the handler are kept, oldest first. -/
structure State where
  jiffies : ℕ
  gpio : Bool
  timer : Option ℕ
  key : Bool
  passed : List Bool
  edges : List Sample
  runs : List Sample
  deriving DecidableEq

/-- What happens next. -/
inductive Action
  /-- The line changes. -/
  | edge
  /-- The timer expires. -/
  | expire
  | tick

/-- `input_report_key`. The input core drops what the key is already. -/
def inputReportKey (s : State) (value : Bool) : State :=
  if value = s.key then s else { s with key := value, passed := s.passed ++ [value] }

/-- `debounce_timer_handler` : the line is read and reported. -/
def debounceTimerHandler (s : State) : State :=
  inputReportKey { s with runs := s.runs ++ [⟨s.jiffies, s.gpio⟩] } s.gpio

/-- `d` is `msecs_to_jiffies(50)`. -/
def gpioInterruptHandler (d : ℕ) (s : State) : State :=
  { s with timer := some (s.jiffies + d) }

/-- The deadline has come. -/
def State.Due (s : State) : Prop :=
  ∃ deadline ∈ s.timer, deadline ≤ s.jiffies

instance (s : State) : Decidable s.Due :=
  inferInstanceAs (Decidable (∃ deadline ∈ s.timer, deadline ≤ s.jiffies))

/-- The edge that comes now. -/
def State.edge (s : State) : Sample :=
  ⟨s.jiffies, !s.gpio⟩

/-- One action; time stands still while the timer is due. -/
def step (d : ℕ) (s : State) : Action → Option State
  | .edge =>
    some (gpioInterruptHandler d { s with gpio := s.edge.level, edges := s.edges ++ [s.edge] })
  | .expire => if s.Due then some (debounceTimerHandler { s with timer := none }) else none
  | .tick => if s.Due then none else some { s with jiffies := s.jiffies + 1 }

/-- After the registration. -/
def start (jiffies : ℕ) (gpio : Bool) : State :=
  ⟨jiffies, gpio, none, false, [], [], []⟩

/-! ## What the handler should do -/

/-- No edge comes exactly `d` after the one before. -/
def Gaps (d : ℕ) (es : List Sample) : Prop :=
  es.IsChain fun e e' => e'.time ≠ e.time + d

instance (d : ℕ) (es : List Sample) : Decidable (Gaps d es) :=
  inferInstanceAs (Decidable (es.IsChain fun e e' => e'.time ≠ e.time + d))

/-- The edges that no other follows within `d`. -/
def settled (d : ℕ) : List Sample → List Sample
  | [] => []
  | e :: es =>
    if ∃ e' ∈ es.head?, e'.time ≤ e.time + d then settled d es else e :: settled d es

/-- The run of the handler `d` after an edge, on the level of the edge. -/
def Sample.handled (d : ℕ) (e : Sample) : Sample :=
  ⟨e.time + d, e.level⟩

/-- The handler has run for the settled edges whose time has come, once and in order; later
than `d` after the last edge it has for all, and the key and what the core has passed on last
are what the line is. -/
structure Debounced (d : ℕ) (s : State) : Prop where
  once : s.runs <+: (settled d s.edges).map (·.handled d)
  complete : ∀ r ∈ (settled d s.edges).map (·.handled d), r.time < s.jiffies → r ∈ s.runs
  latest : ∀ e ∈ s.edges.getLast?, e.time + d < s.jiffies →
    s.runs = (settled d s.edges).map (·.handled d) ∧ s.key = s.gpio ∧
      s.passed.getLastD false = s.gpio

/-! ## The invariant -/

variable {d : ℕ} {s s' : State}

/-- The last edge is settled as yet; one more within `d` takes it out. -/
theorem settled_concat (d : ℕ) : ∀ (es : List Sample) (e : Sample),
    ∃ before, settled d (es ++ [e]) = before ++ [e] ∧ ∀ e', settled d (es ++ [e] ++ [e']) =
      (if e'.time ≤ e.time + d then before else before ++ [e]) ++ [e']
  | [], e => by
    refine ⟨[], by simp [settled], fun e' => ?_⟩
    by_cases h : e'.time ≤ e.time + d <;> simp [settled, h]
  | e₀ :: es, e => by
    obtain ⟨before, hbefore, hnext⟩ := settled_concat d es e
    have hhead : ∀ e', (es ++ [e] ++ [e']).head? = (es ++ [e]).head? := fun e' =>
      List.head?_append_of_ne_nil _ (List.append_ne_nil_of_right_ne_nil es (List.cons_ne_nil e []))
    simp only [List.cons_append, settled, hhead]
    split
    · exact ⟨before, hbefore, hnext⟩
    · refine ⟨e₀ :: before, by rw [hbefore]; rfl, fun e' => ?_⟩
      rw [hnext]
      split <;> rfl

/-- `settled_concat` for what the edges before are known to settle. -/
theorem settled_edge {es before : List Sample} {e : Sample} (hlast : e ∈ es.getLast?)
    (hsettled : settled d es = before ++ [e]) (e' : Sample) :
    settled d (es ++ [e']) = (if e'.time ≤ e.time + d then before else before ++ [e]) ++ [e'] := by
  obtain ⟨es, rfl⟩ := List.getLast?_eq_some_iff.mp hlast
  obtain ⟨before', hbefore', hnext⟩ := settled_concat d es e
  obtain rfl := List.append_cancel_right (hsettled.symm.trans hbefore')
  exact hnext e'

theorem settled_of_getLast? {es : List Sample} {e : Sample} (hlast : e ∈ es.getLast?) :
    ∃ before, settled d es = before ++ [e] := by
  obtain ⟨es, rfl⟩ := List.getLast?_eq_some_iff.mp hlast
  obtain ⟨before, hbefore, -⟩ := settled_concat d es e
  exact ⟨before, hbefore⟩

/-- With the last edge `e` : the timer is pending for it, and the handler has run for the
settled edges before; or it has run for `e` as well. -/
inductive Phase (d : ℕ) (s : State) : Prop
  | none (hedges : s.edges = []) (htimer : s.timer = none) (hruns : s.runs = [])
  | pending (before : List Sample) (e : Sample) (hlast : e ∈ s.edges.getLast?)
    (hlevel : e.level = s.gpio) (htimer : s.timer = some (e.time + d))
    (hdeadline : s.jiffies ≤ e.time + d) (hsettled : settled d s.edges = before ++ [e])
    (hruns : s.runs = before.map (·.handled d))
  | handled (e : Sample) (hlast : e ∈ s.edges.getLast?) (htimer : s.timer = none)
    (hdeadline : e.time + d ≤ s.jiffies) (hruns : s.runs = (settled d s.edges).map (·.handled d))
    (hkey : s.key = s.gpio)

/-- What every run with gaps keeps. -/
structure Inv (d : ℕ) (s : State) : Prop where
  passed : s.passed.getLastD false = s.key
  phase : Phase d s

theorem inv_start (d jiffies : ℕ) (gpio : Bool) : Inv d (start jiffies gpio) :=
  ⟨rfl, .none rfl rfl rfl⟩

/-- The report makes the key what the line is, and the last value passed on with it. -/
theorem inputReportKey_eq (h : s.passed.getLastD false = s.key) (value : Bool) :
    ∃ passed, passed.getLastD false = value ∧
      inputReportKey s value = { s with key := value, passed := passed } := by
  unfold inputReportKey
  split_ifs with hvalue
  · subst hvalue
    exact ⟨s.passed, h, rfl⟩
  · exact ⟨s.passed ++ [value], List.getLastD_concat, rfl⟩

/-- An edge arms the timer for itself, in the place of the last edge if that is within `d`. -/
theorem inv_edge (h : Inv d s) (hstep : step d s .edge = some s') (hgaps : Gaps d s'.edges) :
    Inv d s' := by
  obtain rfl := Option.some.inj hstep
  refine ⟨h.passed, ?_⟩
  have hgap : ∀ e ∈ s.edges.getLast?, s.jiffies ≠ e.time + d := fun e he =>
    (List.isChain_append.mp hgaps).2.2 e he s.edge rfl
  have hlast : s.edge ∈ (s.edges ++ [s.edge]).getLast? := List.getLast?_concat
  have hdeadline : s.jiffies ≤ s.edge.time + d := Nat.le_add_right s.jiffies d
  cases h.phase with
  | none hedges htimer hruns =>
    refine .pending [] s.edge hlast rfl rfl hdeadline ?_ hruns
    simp [gpioInterruptHandler, hedges, settled]
  | pending before e he hlevel htimer hbefore hsettled hruns =>
    refine .pending before s.edge hlast rfl rfl hdeadline ?_ hruns
    have hwithin : s.edge.time ≤ e.time + d := hbefore
    exact (settled_edge he hsettled s.edge).trans (by rw [if_pos hwithin])
  | handled e he htimer hafter hruns hkey =>
    refine .pending (settled d s.edges) s.edge hlast rfl rfl hdeadline ?_ hruns
    obtain ⟨before, hsettled⟩ := settled_of_getLast? he
    have hlater : ¬s.edge.time ≤ e.time + d := fun hle => hgap e he (hle.antisymm hafter)
    exact (settled_edge he hsettled s.edge).trans (by rw [if_neg hlater, hsettled])

/-- A due timer is that of the last edge, and its time is now. -/
theorem inv_expire (h : Inv d s) (hstep : step d s .expire = some s') : Inv d s' := by
  simp only [step] at hstep
  split_ifs at hstep with hdue
  obtain rfl := Option.some.inj hstep
  obtain ⟨deadline, htimer, hle⟩ := hdue
  cases h.phase with
  | none _ hno _ => exact absurd (hno.symm.trans htimer) nofun
  | handled _ _ hno _ _ _ => exact absurd (hno.symm.trans htimer) nofun
  | pending before e he hlevel hpending hdeadline hsettled hruns =>
    obtain rfl := Option.some.inj (hpending.symm.trans htimer)
    have hnow : s.jiffies = e.time + d := hdeadline.antisymm hle
    have hrun : (⟨s.jiffies, s.gpio⟩ : Sample) = e.handled d := by rw [hnow, ← hlevel]; rfl
    obtain ⟨passed, hpassed, heq⟩ := inputReportKey_eq (s := { s with
      timer := none, runs := s.runs ++ [⟨s.jiffies, s.gpio⟩] }) h.passed s.gpio
    rw [debounceTimerHandler, heq]
    refine ⟨hpassed, .handled e he rfl hle ?_ rfl⟩
    dsimp only
    rw [hsettled, hruns, hrun, List.map_append, List.map_singleton]

theorem inv_tick (h : Inv d s) (hstep : step d s .tick = some s') : Inv d s' := by
  simp only [step] at hstep
  split_ifs at hstep with hdue
  obtain rfl := Option.some.inj hstep
  refine ⟨h.passed, ?_⟩
  cases h.phase with
  | none hedges htimer hruns => exact .none hedges htimer hruns
  | pending before e he hlevel htimer hdeadline hsettled hruns =>
    have hlt : s.jiffies < e.time + d := Nat.lt_of_not_le fun hle => hdue ⟨_, htimer, hle⟩
    exact .pending before e he hlevel htimer hlt hsettled hruns
  | handled e he htimer hdeadline hruns hkey =>
    exact .handled e he htimer (Nat.le_succ_of_le hdeadline) hruns hkey

theorem debounceTimerHandler_keeps (s : State) :
    (debounceTimerHandler s).jiffies = s.jiffies ∧ (debounceTimerHandler s).gpio = s.gpio ∧
      (debounceTimerHandler s).timer = s.timer ∧ (debounceTimerHandler s).edges = s.edges := by
  simp only [debounceTimerHandler, inputReportKey]
  split_ifs <;> exact ⟨rfl, rfl, rfl, rfl⟩

/-- Edges are only added. -/
theorem edges_step {a : Action} (hstep : step d s a = some s') : s.edges <+: s'.edges := by
  cases a with
  | edge =>
    obtain rfl := Option.some.inj hstep
    exact List.prefix_append s.edges [s.edge]
  | expire =>
    simp only [step] at hstep
    split_ifs at hstep
    obtain rfl := Option.some.inj hstep
    obtain ⟨-, -, -, hedges⟩ := debounceTimerHandler_keeps { s with timer := none }
    exact ⟨[], (List.append_nil s.edges).trans hedges.symm⟩
  | tick =>
    simp only [step] at hstep
    split_ifs at hstep
    obtain rfl := Option.some.inj hstep
    exact List.prefix_rfl

theorem Gaps.of_prefix {es es' : List Sample} (h : Gaps d es') (hadded : es <+: es') :
    Gaps d es := by
  obtain ⟨_, rfl⟩ := hadded
  exact List.IsChain.left_of_append h

theorem inv_step {a : Action} (h : Gaps d s.edges → Inv d s) (hstep : step d s a = some s')
    (hgaps : Gaps d s'.edges) : Inv d s' := by
  have hs : Inv d s := h (hgaps.of_prefix (edges_step hstep))
  cases a with
  | edge => exact inv_edge hs hstep hgaps
  | expire => exact inv_expire hs hstep
  | tick => exact inv_tick hs hstep

/-! ## Every run -/

theorem Inv.reported (h : Inv d s) : Debounced d s := by
  cases h.phase with
  | none hedges htimer hruns =>
    have hsettled : settled d s.edges = [] := by rw [hedges, settled]
    refine ⟨hruns ▸ List.nil_prefix, fun r hr => ?_, fun e he => ?_⟩
    · rw [hsettled] at hr
      exact nomatch hr
    · rw [hedges] at he
      exact nomatch he
  | pending before e he hlevel htimer hdeadline hsettled hruns =>
    refine ⟨?_, fun r hr hpast => ?_, fun e' he' hpast => ?_⟩
    · rw [hruns, hsettled, List.map_append]
      exact List.prefix_append _ _
    · rw [hsettled, List.map_append, ← hruns] at hr
      refine (List.mem_append.mp hr).resolve_right fun hlast => ?_
      obtain rfl := List.mem_singleton.mp hlast
      exact absurd hpast (Nat.not_lt.mpr hdeadline)
    · obtain rfl := Option.mem_unique he he'
      exact absurd hpast (Nat.not_lt.mpr hdeadline)
  | handled e he htimer hdeadline hruns hkey =>
    exact ⟨hruns ▸ List.prefix_rfl, fun r hr _ => hruns ▸ hr,
      fun _ _ _ => ⟨hruns, hkey, h.passed.trans hkey⟩⟩

/-- From every time and level of the line, in every interleaving of its edges with the timer
and the time in which no two edges are `d` apart. -/
theorem debounced {jiffies : ℕ} {gpio : Bool} {as : List Action}
    (hrun : Transition.run (step d) (start jiffies gpio) as = some s) (hgaps : Gaps d s.edges) :
    Debounced d s :=
  (Transition.inv_run (I := fun s => Gaps d s.edges → Inv d s) (fun _ _ _ => inv_step)
    (fun _ => inv_start d jiffies gpio) hrun hgaps).reported

/-- A press that bounces, and its release. -/
theorem debounced_press :
    Debounced 2 ⟨7, false, none, false, [true, false],
      [⟨0, true⟩, ⟨1, false⟩, ⟨1, true⟩, ⟨4, false⟩], [⟨3, true⟩, ⟨6, false⟩]⟩ :=
  debounced (show Transition.run (step 2) (start 0 false)
    [.edge, .tick, .edge, .edge, .tick, .tick, .expire, .tick, .edge, .tick, .tick, .expire, .tick]
      = some _ from rfl) (by decide)

/-! ## Every waveform -/

/-- The edges of a line that changes at the times `ts`. -/
def waveform : Bool → List ℕ → List Sample
  | _, [] => []
  | level, t :: ts => ⟨t, !level⟩ :: waveform (!level) ts

/-- `s'` is `s` at the time `t`, but for the timer, its runs and what they report. -/
structure Waits (d : ℕ) (s : State) (t : ℕ) (s' : State) : Prop where
  run : ∃ as, Transition.run (step d) s as = some s'
  jiffies : s'.jiffies = t
  gpio : s'.gpio = s.gpio
  edges : s'.edges = s.edges

theorem Waits.trans {s'' : State} {t t' : ℕ} (h : Waits d s t s') (h' : Waits d s' t' s'') :
    Waits d s t' s'' := by
  obtain ⟨as, has⟩ := h.run
  obtain ⟨bs, hbs⟩ := h'.run
  refine ⟨⟨as ++ bs, ?_⟩, h'.jiffies, h'.gpio.trans h.gpio, h'.edges.trans h.edges⟩
  rw [Transition.run_append, has, Option.bind_some, hbs]

theorem waits_tick (hdue : ¬s.Due) :
    Waits d s (s.jiffies + 1) { s with jiffies := s.jiffies + 1 } :=
  ⟨⟨[.tick], by simp [step, hdue]⟩, rfl, rfl, rfl⟩

/-- A due timer expires first. -/
theorem exists_tick (d : ℕ) (s : State) : ∃ s', Waits d s (s.jiffies + 1) s' := by
  by_cases hdue : s.Due
  · obtain ⟨hjiffies, hgpio, htimer, hedges⟩ :=
      debounceTimerHandler_keeps { s with timer := none }
    have hexpire : Waits d s s.jiffies (debounceTimerHandler { s with timer := none }) :=
      ⟨⟨[.expire], by simp [step, hdue]⟩, hjiffies, hgpio, hedges⟩
    have hidle : ¬(debounceTimerHandler { s with timer := none }).Due := by
      rintro ⟨deadline, hdeadline, -⟩
      exact nomatch htimer.symm.trans hdeadline
    exact ⟨_, hexpire.trans (hjiffies ▸ waits_tick hidle)⟩
  · exact ⟨_, waits_tick hdue⟩

theorem exists_wait (d : ℕ) (s : State) {t : ℕ} (ht : s.jiffies ≤ t) : ∃ s', Waits d s t s' := by
  induction t, ht using Nat.le_induction with
  | base => exact ⟨s, ⟨[], rfl⟩, rfl, rfl, rfl⟩
  | succ t _ ih =>
    obtain ⟨s', hs'⟩ := ih
    obtain ⟨s'', hs''⟩ := exists_tick d s'
    rw [hs'.jiffies] at hs''
    exact ⟨s'', hs'.trans hs''⟩

/-- Every sequence of edges, and what comes after it up to any time, is that of a run. -/
theorem exists_run_waveform (d : ℕ) {t : ℕ} : ∀ (ts : List ℕ) (s : State),
    (s.jiffies :: (ts ++ [t])).IsChain (· ≤ ·) → ∃ as s',
      Transition.run (step d) s as = some s' ∧ s'.jiffies = t ∧
        s'.edges = s.edges ++ waveform s.gpio ts
  | [], s, hts => by
    obtain ⟨s', ⟨as, hrun⟩, hjiffies, -, hedges⟩ :=
      exists_wait d s (List.isChain_cons_cons.mp hts).1
    exact ⟨as, s', hrun, hjiffies, by rw [hedges, waveform, List.append_nil]⟩
  | t₀ :: ts, s, hts => by
    obtain ⟨ht₀, hts⟩ := List.isChain_cons_cons.mp hts
    obtain ⟨s', ⟨as, hrun⟩, hjiffies, hgpio, hedges⟩ := exists_wait d s ht₀
    obtain ⟨bs, s'', hrun', hjiffies', hedges'⟩ := exists_run_waveform d ts
      (gpioInterruptHandler d { s' with gpio := s'.edge.level, edges := s'.edges ++ [s'.edge] })
      (hjiffies.symm ▸ hts)
    refine ⟨as ++ .edge :: bs, s'', ?_, hjiffies', ?_⟩
    · rw [Transition.run_append, hrun, Option.bind_some, Transition.run_cons]
      exact hrun'
    · rw [hedges', waveform, ← hgpio, ← hedges, ← hjiffies]
      simp [gpioInterruptHandler, State.edge]

end InputDevice

end LinuxDriverKb
