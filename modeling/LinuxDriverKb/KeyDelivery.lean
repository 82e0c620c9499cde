import Mathlib.Data.List.Nodup
import LinuxDriverKb.KeyDevice
import LinuxDriverKb.Lib.Transition

/-!
# Delivery of key presses

A read takes `key_value` in one step and sets it to 0 in a later one. While no reader
takes it between these two steps of another, or takes a 0 that another left, and no press
is recorded there, every press that finds `key_value` 0 goes to one read at most, reads
hand over 1, and no press is cleared unread (`delivered_once`). The drivers ensure none of
this : they declare a mutex and do not take it.
-/

set_option autoImplicit false

namespace LinuxDriverKb

namespace KeyDevice

variable {Proc : Type}

/-- Successful reads hand over the value 1, no two of them in the same epoch, and
`key_value` is set to 0 only by a read that took it after the latest press. -/
structure Delivers (s : State Proc) (a : Action Proc) (s' : State Proc) : Prop where
  value : ∀ r ∈ s'.handed, r.1 = 1
  once : (s'.handed.map Prod.snd).Nodup
  pending : ∀ q v t, a = .clear q → (s.procs q).pc = .clear v t → t.presses = s.presses

/-- No read is between taking `key_value` and setting it to 0. -/
def NoneBetween (s : State Proc) : Prop :=
  ∀ q v t, (s.procs q).pc ≠ .clear v t

/-- A read takes `key_value` only while it is set and no other read is about to clear it,
and no press is recorded while one is. -/
def Undisturbed (s : State Proc) (a : Action Proc) (_ : State Proc) : Prop :=
  match a with
  | .sample _ => s.key ≠ 0 ∧ NoneBetween s
  | .timer value => value = 0 → NoneBetween s
  | _ => True

/-! ## The invariant -/

/-- The epoch `e` is over : its press has been cleared. -/
def Past (s : State Proc) (e : ℕ) : Prop :=
  e < s.epoch ∨ (e = s.epoch ∧ s.key = 0)

/-- At most one read is about to clear `key_value`, it took the press of this epoch, and no
two reads have, or have handed over, the press of the same epoch. -/
structure Inv (s : State Proc) : Prop where
  key : s.key = 0 ∨ s.key = 1
  clear : ∀ q v t, (s.procs q).pc = .clear v t →
    v = 1 ∧ s.key = 1 ∧ t.epoch = s.epoch ∧ t.presses = s.presses
  clearUnique : ∀ q q' v v' t t', (s.procs q).pc = .clear v t → (s.procs q').pc = .clear v' t' →
    q = q'
  copy : ∀ q v t, (s.procs q).pc = .copy v t →
    v = 1 ∧ Past s t.epoch ∧ t.epoch ∉ s.handed.map Prod.snd
  copyUnique : ∀ q q' v v' t t', (s.procs q).pc = .copy v t → (s.procs q').pc = .copy v' t' →
    t.epoch = t'.epoch → q = q'
  handed : ∀ r ∈ s.handed, r.1 = 1 ∧ Past s r.2
  nodup : (s.handed.map Prod.snd).Nodup

theorem inv_init : Inv (init : State Proc) where
  key := .inl rfl
  clear := by simp [init]
  clearUnique := by simp [init]
  copy := by simp [init]
  copyUnique := by simp [init]
  handed := by simp [init]
  nodup := List.nodup_nil

/-- The invariant is about the shared data and the reads about to clear or to copy. -/
theorem Inv.frame {s s' : State Proc} (h : Inv s) (hkey : s'.key = s.key)
    (hepoch : s'.epoch = s.epoch) (hpresses : s'.presses = s.presses)
    (hhanded : s'.handed = s.handed)
    (hclear : ∀ q v t, (s'.procs q).pc = .clear v t → (s.procs q).pc = .clear v t)
    (hcopy : ∀ q v t, (s'.procs q).pc = .copy v t → (s.procs q).pc = .copy v t) : Inv s' where
  key := hkey ▸ h.key
  clear q v t hq := by
    rw [hkey, hepoch, hpresses]
    exact h.clear q v t (hclear q v t hq)
  clearUnique q q' v v' t t' hq hq' :=
    h.clearUnique q q' v v' t t' (hclear q v t hq) (hclear q' v' t' hq')
  copy q v t hq := by
    rw [Past, hkey, hepoch, hhanded]
    exact h.copy q v t (hcopy q v t hq)
  copyUnique q q' v v' t t' hq hq' :=
    h.copyUnique q q' v v' t t' (hcopy q v t hq) (hcopy q' v' t' hq')
  handed r hr := by
    rw [Past, hkey, hepoch]
    exact h.handed r (hhanded ▸ hr)
  nodup := hhanded ▸ h.nodup

/-- Neither about to clear nor about to copy. -/
def Pc.Free (pc : Pc) : Prop :=
  ∀ v t, pc ≠ .clear v t ∧ pc ≠ .copy v t

theorem Local.next_free {key : ℤ} {l l' : Local} (h : l.next key = some l') : l'.pc.Free := by
  intro v t
  unfold Local.next at h
  split at h <;> (try split_ifs at h) <;> cases h <;> simp

/-! ## Steps -/

theorem Past.press {d : Driver} {s : State Proc} {e : ℕ} (h : Past s e) : Past (press d s) e := by
  unfold Past KeyDevice.press at *
  dsimp only
  split_ifs <;> omega

theorem Past.lt {s : State Proc} {e : ℕ} (h : Past s e) (hone : s.key = 1) : e < s.epoch := by
  unfold Past at h
  omega

/-- A press recorded while no read is about to clear. -/
theorem Inv.press {s : State Proc} (h : Inv s) (d : Driver) (hn : NoneBetween s) :
    Inv (press d s) where
  key := .inr rfl
  clear q v t hq := absurd hq (hn q v t)
  clearUnique q _ v _ t _ hq := absurd hq (hn q v t)
  copy q v t hq := by
    obtain ⟨hv, hpast, hfresh⟩ := h.copy q v t hq
    exact ⟨hv, hpast.press, hfresh⟩
  copyUnique := h.copyUnique
  handed r hr := ⟨(h.handed r hr).1, (h.handed r hr).2.press⟩
  nodup := h.nodup

variable [DecidableEq Proc]

/-- The handler's notification moves no read. -/
theorem Inv.notify {s s' : State Proc} (h : Inv s) (hstep : notifyStep s = some s') : Inv s' := by
  have hkill : ∀ q, (killFasync s q).pc = (s.procs q).pc := by
    intro q
    unfold killFasync
    split_ifs <;> rfl
  unfold notifyStep at hstep
  split at hstep <;> cases hstep
  · exact h.frame rfl rfl rfl rfl (fun _ _ _ => id) fun _ _ _ => id
  · exact h.frame rfl rfl rfl rfl (fun q _ _ hq => hkill q ▸ hq) fun q _ _ hq => hkill q ▸ hq
  · exact h.frame rfl rfl rfl rfl (fun _ _ _ => id) fun _ _ _ => id

/-- A process that stays where it is, or is neither about to clear nor about to copy. -/
theorem Inv.setLocal {s : State Proc} (h : Inv s) {q : Proc} {l : Local}
    (hl : l.pc.Free ∨ l.pc = (s.procs q).pc) : Inv (s.setLocal q l) := by
  have hpc : ∀ r pc, ¬ pc.Free → ((s.setLocal q l).procs r).pc = pc → (s.procs r).pc = pc := by
    intro r pc hfree hr
    rcases State.pc_of_setLocal hr with ⟨rfl, rfl⟩ | ⟨-, hr⟩
    · exact (hl.resolve_left hfree).symm
    · exact hr
  exact h.frame rfl rfl rfl rfl (fun r v t => hpc r _ fun hf => (hf v t).1 rfl)
    fun r v t => hpc r _ fun hf => (hf v t).2 rfl

/-- A read takes a press that no other has. -/
theorem Inv.sample {s : State Proc} (h : Inv s) (q : Proc) (hkey : s.key ≠ 0)
    (hn : NoneBetween s) :
    Inv (s.setLocal q { s.procs q with pc := .clear s.key ⟨s.epoch, s.presses⟩ }) := by
  have hone : s.key = 1 := h.key.resolve_left hkey
  -- only `q` is about to clear, and it is not about to copy
  have hclear : ∀ r v t, ((s.setLocal q { s.procs q with
      pc := .clear s.key ⟨s.epoch, s.presses⟩ }).procs r).pc = .clear v t →
      r = q ∧ s.key = v ∧ ⟨s.epoch, s.presses⟩ = t := by
    intro r v t hr
    rcases State.pc_of_setLocal hr with ⟨hrq, hpc⟩ | ⟨-, hr⟩
    · injection hpc with hv ht
      exact ⟨hrq, hv, ht⟩
    · exact absurd hr (hn r v t)
  have hcopy : ∀ r v t, ((s.setLocal q { s.procs q with
      pc := .clear s.key ⟨s.epoch, s.presses⟩ }).procs r).pc = .copy v t →
      (s.procs r).pc = .copy v t := by
    intro r v t hr
    rcases State.pc_of_setLocal hr with ⟨-, hpc⟩ | ⟨-, hr⟩
    · exact absurd hpc (by simp)
    · exact hr
  refine ⟨h.key, fun r v t hr => ?_, fun r r' v v' t t' hr hr' => ?_,
    fun r v t hr => h.copy r v t (hcopy r v t hr),
    fun r r' v v' t t' hr hr' => h.copyUnique r r' v v' t t' (hcopy r v t hr) (hcopy r' v' t' hr'),
    h.handed, h.nodup⟩
  · obtain ⟨-, rfl, rfl⟩ := hclear r v t hr
    exact ⟨hone, hone, rfl, rfl⟩
  · exact (hclear r v t hr).1.trans (hclear r' v' t' hr').1.symm

/-- A read clears the press it took, which ends the epoch. -/
theorem Inv.clearKey {s : State Proc} (h : Inv s) {q : Proc} {v : ℤ} {t : Tag}
    (hq : (s.procs q).pc = .clear v t) :
    Inv { s.setLocal q { s.procs q with pc := .copy v t } with key := 0 } := by
  obtain ⟨hv, hone, hepoch, -⟩ := h.clear q v t hq
  have hlt : ∀ {e}, Past s e → e < s.epoch := fun he => he.lt hone
  have hcopy : ∀ r v' t', ((s.setLocal q { s.procs q with pc := .copy v t }).procs r).pc =
      .copy v' t' → (r = q ∧ v' = v ∧ t' = t) ∨ (s.procs r).pc = .copy v' t' := by
    intro r v' t' hr
    rcases State.pc_of_setLocal hr with ⟨hrq, hpc⟩ | ⟨-, hr⟩
    · injection hpc with hv ht
      exact .inl ⟨hrq, hv.symm, ht.symm⟩
    · exact .inr hr
  have hnone : ∀ r v' t', ((s.setLocal q { s.procs q with pc := .copy v t }).procs r).pc ≠
      .clear v' t' := by
    intro r v' t' hr
    rcases State.pc_of_setLocal hr with ⟨-, hpc⟩ | ⟨hne, hr⟩
    · exact absurd hpc (by simp)
    · exact hne (h.clearUnique r q v' v t' t hr hq)
  refine ⟨.inl rfl, fun r v' t' hr => absurd hr (hnone r v' t'),
    fun r _ v' _ t' _ hr => absurd hr (hnone r v' t'), fun r v' t' hr => ?_,
    fun r r' v₁ v₂ t₁ t₂ hr hr' he => ?_, fun x hx => ?_, h.nodup⟩
  · rcases hcopy r v' t' hr with ⟨-, rfl, rfl⟩ | hr
    · refine ⟨hv, .inr ⟨hepoch, rfl⟩, fun hmem => ?_⟩
      obtain ⟨x, hx, hxe⟩ := List.mem_map.mp hmem
      have := hlt (h.handed x hx).2
      omega
    · obtain ⟨hv', hpast, hfresh⟩ := h.copy r v' t' hr
      exact ⟨hv', .inl (hlt hpast), hfresh⟩
  · rcases hcopy r v₁ t₁ hr with ⟨rfl, rfl, rfl⟩ | hc <;>
      rcases hcopy r' v₂ t₂ hr' with ⟨rfl, rfl, rfl⟩ | hc'
    · rfl
    · have := hlt (h.copy r' v₂ t₂ hc').2.1
      omega
    · have := hlt (h.copy r v₁ t₁ hc).2.1
      omega
    · exact h.copyUnique r r' v₁ v₂ t₁ t₂ hc hc' he
  · exact ⟨(h.handed x hx).1, .inl (hlt (h.handed x hx).2)⟩

/-- A read that returns hands over a press that no read has handed over. -/
theorem Inv.hand {s : State Proc} (h : Inv s) {q : Proc} {v : ℤ} {t : Tag}
    (hq : (s.procs q).pc = .copy v t) (uncopied : ℕ) :
    Inv { s.setLocal q { s.procs q with pc := .idle } with
      handed := if uncopied = 0 then s.handed ++ [(v, t.epoch)] else s.handed } := by
  have hidle : Inv (s.setLocal q { s.procs q with pc := .idle }) :=
    h.setLocal (.inl fun v t => by simp)
  obtain ⟨hv, hpast, hfresh⟩ := h.copy q v t hq
  split_ifs
  · refine ⟨h.key, hidle.clear, hidle.clearUnique, fun r v' t' hr => ?_, hidle.copyUnique,
      fun x hx => ?_, ?_⟩
    · obtain ⟨hv', hpast', hfresh'⟩ := hidle.copy r v' t' hr
      refine ⟨hv', hpast', fun hmem => ?_⟩
      rcases State.pc_of_setLocal hr with ⟨-, hpc⟩ | ⟨hne, hr⟩
      · exact absurd hpc (by simp)
      · rw [List.map_append, List.mem_append] at hmem
        rcases hmem with hmem | hmem
        · exact hfresh' hmem
        · exact hne (h.copyUnique r q v' v t' t hr hq (List.mem_singleton.mp hmem))
    · rcases List.mem_append.mp hx with hx | hx
      · exact h.handed x hx
      · rw [List.mem_singleton.mp hx]
        exact ⟨hv, hpast⟩
    · rw [List.map_append]
      exact List.nodup_append'.mpr ⟨h.nodup, List.nodup_singleton _, by simpa using hfresh⟩
  · exact hidle

/-- An undisturbed step keeps the invariant. -/
theorem inv_step {d : Driver} {s s' : State Proc} {a : Action Proc} (h : Inv s)
    (hstep : step d s a = some s') (hc : Undisturbed s a s') : Inv s' := by
  cases stepCase_of_step hstep with
  | press _ => exact h.press d (hc rfl)
  | noPress => exact h
  | notify hn => exact h.notify hn
  | read | poll => exact h.setLocal (.inl fun v t => by simp)
  | next hl => exact h.setLocal (.inl (Local.next_free hl))
  | sample => exact h.sample _ hc.1 hc.2
  | clear hq => exact h.clearKey hq
  | copy hq => exact h.hand hq _
  | signal => exact h.setLocal (.inr rfl)
  | mask | fasync | release => exact h.frame rfl rfl rfl rfl (fun _ _ _ => id) fun _ _ _ => id

/-! ## Runs -/

/-- Any number of readers of any of the drivers, any interleaving : if every step of the
run is undisturbed, reads hand over 1, every press to one read at most, and no press is
cleared that was not read. -/
theorem delivered_once (d : Driver) (as : List (Action Proc))
    (h : Transition.Always (step d) Undisturbed init as) :
    Transition.Always (step d) Delivers init as := by
  refine Transition.always_imp (I := Inv) (fun s a s' hinv hstep hc => ?_) inv_init h
  have hinv' := inv_step hinv hstep hc
  refine ⟨hinv', fun r hr => (hinv'.handed r hr).1, hinv'.nodup, fun q v t _ hq => ?_⟩
  exact (hinv.clear q v t hq).2.2.2

/-- Two presses, each read by one of two processes. -/
theorem delivered_once_alternating : Transition.Always (step .blockIo) Delivers init
    [.read false false, .timer 0, .notify, .next false, .sample false, .clear false, .copy false 0,
      .timer 0, .read true false, .next true, .sample true, .clear true, .copy true 0] := by
  refine delivered_once .blockIo _ ?_
  have hnone : ∀ {s : State Bool} {pc pc' : Pc}, (s.procs false).pc = pc → (s.procs true).pc = pc' →
      pc.Free → pc'.Free → NoneBetween s := by
    intro s pc pc' hf ht hpc hpc' q v t
    cases q
    · exact hf ▸ (hpc v t).1
    · exact ht ▸ (hpc' v t).1
  have hidle : Pc.idle.Free := fun v t => by simp
  have htest : Pc.test.Free := fun v t => by simp
  have hsample : Pc.sample.Free := fun v t => by simp
  exact .cons rfl trivial <| .cons rfl (fun _ => hnone rfl rfl htest hidle) <| .cons rfl trivial <|
    .cons rfl trivial <| .cons rfl ⟨Int.one_ne_zero, hnone rfl rfl hsample hidle⟩ <|
    .cons rfl trivial <| .cons rfl trivial <| .cons rfl (fun _ => hnone rfl rfl hidle hidle) <|
    .cons rfl trivial <| .cons rfl trivial <|
    .cons rfl ⟨Int.one_ne_zero, hnone rfl rfl hidle hsample⟩ <|
    .cons rfl trivial <| .cons rfl trivial trivial

/-- Two readers find the press; one takes and clears it, the other then takes 0 and
succeeds, in all four drivers. -/
theorem read_hands_zero :
    [Driver.blockIo, .nonblockIo, .fasyncIo, .fasyncIoMisc].map (fun d =>
      (Transition.run (step d) init
        [.timer 0, .read false false, .read true false, .next false, .next true, .sample false,
          .clear false, .sample true, .clear true, .copy false 0, .copy true 0]).map State.handed) =
    List.replicate 4 (some [(1, 1), (0, 1)]) :=
  rfl

end KeyDevice

end LinuxDriverKb
