import LinuxDriverKb.Lib.Ledger
import LinuxDriverKb.Lib.Transition
import Mathlib.Data.Nat.Notation

/-!
# Initialisation in steps

A module acquires resources step by step when it is loaded, and releases them when it is
unloaded. A step that fails goes on without its resources, or releases what is there and
returns : an error, or by mistake success. The unload of some may fail, and then releases
nothing though the module is gone. `Script` is such a module, with distinct resources; `step`
is a system in which any instances of any scripts are loaded, with any steps failing, and
unloaded.

`always_accounted_iff` : over a run the live resources are those of the loaded instances,
each released once and only while it is live, exactly if every load leaves what it should
(`Clean`), and every instance that is unloaded releases what it has (`CleanExit`).
-/

set_option autoImplicit false

namespace Unwind

open Ledger (Op)

/-! ## Scripts -/

/-- What follows if a step fails, with what is released; `never` : it does not fail. -/
inductive OnFail (κ : Type)
  | never
  | ignored
  | unwind (released : List κ)
  | masked (released : List κ)

/-- A step acquires resources, or fails. -/
structure Step (κ : Type) where
  acquires : List κ
  onFail : OnFail κ

/-- The steps of a load, what an unload releases, and whether an unload can fail. -/
structure Script (κ : Type) where
  steps : List (Step κ)
  exit : List κ
  exitFails : Bool := false
  nodup : (steps.flatMap Step.acquires).Nodup

variable {κ ι : Type}

/-- What all steps acquire. -/
def Script.resources (S : Script κ) : List κ :=
  S.steps.flatMap Step.acquires

/-- What a load returns and does. -/
structure Result (κ : Type) where
  ok : Bool
  acquired : List κ
  released : List κ

/-- The steps from the `i`-th on; `fails` : those that fail. -/
def load (fails : ℕ → Bool) : List (Step κ) → ℕ → List κ → Result κ
  | [], _, acquired => ⟨true, acquired, []⟩
  | s :: rest, i, acquired =>
    if fails i = true then
      match s.onFail with
      | .never => load fails rest (i + 1) (acquired ++ s.acquires)
      | .ignored => load fails rest (i + 1) acquired
      | .unwind released => ⟨false, acquired, released⟩
      | .masked released => ⟨true, acquired, released⟩
    else load fails rest (i + 1) (acquired ++ s.acquires)

/-- A load with the steps of `fails` failing. -/
def Script.load (S : Script κ) (fails : ℕ → Bool) : Result κ :=
  Unwind.load fails S.steps 0 []

/-- A load leaves all resources if it returns success, and else none. -/
def Clean (S : Script κ) (fails : ℕ → Bool) : Prop :=
  (S.load fails).acquired.Perm
    ((S.load fails).released ++ if (S.load fails).ok = true then S.resources else [])

/-- What an unload releases; `fails` : it fails if it can. -/
def Script.unload (S : Script κ) (fails : Bool) : List κ :=
  if S.exitFails && fails then [] else S.exit

/-- An unload releases all resources. -/
def CleanExit (S : Script κ) (fails : Bool) : Prop :=
  (S.unload fails).Perm S.resources

instance [DecidableEq κ] (S : Script κ) (fails : Bool) : Decidable (CleanExit S fails) :=
  inferInstanceAs (Decidable ((S.unload fails).Perm S.resources))

/-- An unload that cannot fail. -/
theorem cleanExit_of_perm {S : Script κ} (h : S.exitFails = false)
    (hperm : S.exit.Perm S.resources) (fails : Bool) : CleanExit S fails := by
  rw [CleanExit, Script.unload, h]
  exact hperm

theorem acquired_sublist (fails : ℕ → Bool) :
    ∀ (steps : List (Step κ)) (i : ℕ) (acquired : List κ),
      (load fails steps i acquired).acquired.Sublist (acquired ++ steps.flatMap Step.acquires)
  | [], _, _ => by simp [load]
  | s :: rest, i, acquired => by
    have hmore : (acquired ++ s.acquires ++ rest.flatMap Step.acquires).Sublist
        (acquired ++ (s :: rest).flatMap Step.acquires) := by
      rw [List.flatMap_cons, List.append_assoc]
    unfold load
    split_ifs
    · cases s.onFail with
      | never => exact (acquired_sublist fails rest (i + 1) (acquired ++ s.acquires)).trans hmore
      | ignored =>
        refine (acquired_sublist fails rest (i + 1) acquired).trans (.trans ?_ hmore)
        exact (List.sublist_append_left _ _).append (.refl _)
      | unwind => exact List.sublist_append_left _ _
      | masked => exact List.sublist_append_left _ _
    · exact (acquired_sublist fails rest (i + 1) (acquired ++ s.acquires)).trans hmore

theorem Script.nodup_acquired (S : Script κ) (fails : ℕ → Bool) :
    (S.load fails).acquired.Nodup := by
  have h := acquired_sublist fails S.steps 0 []
  rw [List.nil_append] at h
  exact S.nodup.sublist h

/-- Every step that can fail releases what those before it acquired. -/
def Unwinds : List κ → List (Step κ) → Prop
  | _, [] => True
  | acquired, s :: rest =>
    (match s.onFail with
      | .never => True
      | .unwind released => acquired.Perm released
      | .ignored | .masked _ => False) ∧
      Unwinds (acquired ++ s.acquires) rest

instance decidableUnwinds [DecidableEq κ] :
    ∀ (acquired : List κ) (steps : List (Step κ)), Decidable (Unwinds acquired steps)
  | _, [] => isTrue True.intro
  | acquired, ⟨acquires, .never⟩ :: rest =>
    have := decidableUnwinds (acquired ++ acquires) rest
    inferInstanceAs (Decidable (True ∧ Unwinds (acquired ++ acquires) rest))
  | acquired, ⟨acquires, .unwind released⟩ :: rest =>
    have := decidableUnwinds (acquired ++ acquires) rest
    inferInstanceAs (Decidable (acquired.Perm released ∧ Unwinds (acquired ++ acquires) rest))
  | _, ⟨_, .ignored⟩ :: _ | _, ⟨_, .masked _⟩ :: _ => isFalse fun h => h.1

theorem unwinds_append {acquired : List κ} {steps steps' : List (Step κ)} :
    Unwinds acquired (steps ++ steps') ↔
      Unwinds acquired steps ∧ Unwinds (acquired ++ steps.flatMap Step.acquires) steps' := by
  induction steps generalizing acquired with
  | nil => simp [Unwinds]
  | cons s rest ih =>
    rw [List.cons_append, Unwinds, Unwinds, ih, List.flatMap_cons, List.append_assoc, and_assoc]

/-- What is left after a load whose steps unwind. -/
theorem load_of_unwinds (fails : ℕ → Bool) :
    ∀ {steps : List (Step κ)} (i : ℕ) {acquired : List κ}, Unwinds acquired steps →
      (load fails steps i acquired).acquired.Perm ((load fails steps i acquired).released ++
        if (load fails steps i acquired).ok = true then acquired ++ steps.flatMap Step.acquires
        else [])
  | [], _, acquired, _ => by simp [load]
  | ⟨acquires, onFail⟩ :: rest, i, acquired, ⟨hstep, hrest⟩ => by
    have hdone := load_of_unwinds fails (i + 1) hrest
    rw [List.append_assoc] at hdone
    rw [List.flatMap_cons]
    by_cases hfails : fails i = true
    · cases onFail with
      | never => simpa only [load, if_pos hfails] using hdone
      | ignored => exact hstep.elim
      | unwind released => simpa [load, hfails] using hstep
      | masked => exact hstep.elim
    · simpa only [load, if_neg hfails] using hdone

theorem clean_of_unwinds {S : Script κ} (h : Unwinds [] S.steps) (fails : ℕ → Bool) :
    Clean S fails := by
  have hload := load_of_unwinds fails 0 h
  rwa [List.nil_append] at hload

/-! ## The system -/

/-- A loaded instance, with the number of its load. -/
structure Loaded (ι : Type) where
  inst : ι
  serial : ℕ
  deriving DecidableEq

/-- A resource with the number of the load that acquired it. -/
structure Resource (κ : Type) where
  kind : κ
  serial : ℕ
  deriving DecidableEq

/-- The loaded instances, what was acquired and released, and the number of the next load. -/
structure State (ι κ : Type) where
  loaded : List (Loaded ι)
  log : List (Op (Resource κ))
  next : ℕ

/-- Nothing is loaded. -/
def start : State ι κ :=
  ⟨[], [], 0⟩

/-- A load with the steps that fail, or an unload that may fail. -/
inductive Action (ι : Type)
  | load (i : ι) (fails : ℕ → Bool)
  | unload (i : ι) (fails : Bool)

/-- The kinds as resources of one load. -/
def ofLoad (n : ℕ) (kinds : List κ) : List (Resource κ) :=
  kinds.map fun k => ⟨k, n⟩

/-- The operations of a load. -/
def Result.ops (r : Result κ) (n : ℕ) : List (Op (Resource κ)) :=
  (ofLoad n r.acquired).map .acquire ++ (ofLoad n r.released).map .release

variable [DecidableEq κ] (script : ι → Script κ)

/-- The live resources. -/
def State.live (s : State ι κ) : List (Resource κ) :=
  Ledger.exec [] s.log

/-- What the loaded instances should have. -/
def State.owned (s : State ι κ) : List (Resource κ) :=
  s.loaded.flatMap fun l => ofLoad l.serial (script l.inst).resources

/-- An instance is loaded while it is not loaded, and unloaded while it is. -/
def step [DecidableEq ι] (s : State ι κ) : Action ι → Option (State ι κ)
  | .load i fails =>
    if s.loaded.any (fun l => l.inst = i) = true then none
    else
      let r := (script i).load fails
      some
        { loaded := if r.ok = true then ⟨i, s.next⟩ :: s.loaded else s.loaded
          log := s.log ++ r.ops s.next
          next := s.next + 1 }
  | .unload i fails =>
    (s.loaded.find? fun l => l.inst = i).map fun l =>
      { s with
        loaded := s.loaded.erase l
        log := s.log ++ (ofLoad l.serial ((script i).unload fails)).map .release }

/-- Nothing is released but what is live, each resource as often as it was acquired but for
the live ones, and these are what the loaded instances should have. -/
structure Accounted (_ : State ι κ) (_ : Action ι) (s' : State ι κ) : Prop where
  valid : Ledger.Valid [] s'.log
  once : ∀ r, s'.log.count (.acquire r) = s'.log.count (.release r) + s'.live.count r
  live : s'.live.Perm (s'.owned script)

omit [DecidableEq κ] in
/-- The load or the unload is clean. -/
def CleanAction (_ : State ι κ) (a : Action ι) (_ : State ι κ) : Prop :=
  match a with
  | .load i fails => Clean (script i) fails
  | .unload i fails => CleanExit (script i) fails

/-! ## One step -/

/-- The log is valid, the live resources are what the loaded instances should have, and the
numbers of the loads are used up to `next`. -/
structure Inv (s : State ι κ) : Prop where
  valid : Ledger.Valid [] s.log
  live : s.live.Perm (s.owned script)
  serial : ∀ l ∈ s.loaded, l.serial < s.next

theorem inv_start : Inv script start where
  valid := True.intro
  live := .rfl
  serial _ hl := absurd hl List.not_mem_nil

omit [DecidableEq κ] in
theorem ofLoad_perm_iff {n : ℕ} {ks ks' : List κ} :
    (ofLoad n ks).Perm (ofLoad n ks') ↔ ks.Perm ks' :=
  List.map_perm_map_iff fun _ _ h => congrArg Resource.kind h

omit [DecidableEq κ] in
theorem ofLoad_append (n : ℕ) (ks ks' : List κ) :
    ofLoad n (ks ++ ks') = ofLoad n ks ++ ofLoad n ks' :=
  List.map_append

variable {script} {s s' : State ι κ} {a : Action ι}

/-- A resource of the next load is not live. -/
theorem Inv.not_live (h : Inv script s) {ks : List κ} :
    ∀ r ∈ ofLoad s.next ks, r ∉ s.live := by
  intro r hr hlive
  obtain ⟨k, -, rfl⟩ := List.mem_map.mp hr
  obtain ⟨l, hl, hmem⟩ := List.mem_flatMap.mp (h.live.mem_iff.mp hlive)
  obtain ⟨k', -, heq⟩ := List.mem_map.mp hmem
  have hserial : l.serial = s.next := congrArg Resource.serial heq
  exact absurd (h.serial l hl) (hserial ▸ Nat.lt_irrefl s.next)

theorem accounted_of_inv (h : Inv script s') : Accounted script s a s' where
  valid := h.valid
  once r := by simpa [State.live] using Ledger.count_acquire h.valid r
  live := h.live

/-- What the operations of a step leave, given that those before were valid. -/
theorem live_of_log {ops : List (Op (Resource κ))} (hlog : s'.log = s.log ++ ops) :
    s'.live = Ledger.exec s.live ops := by
  rw [State.live, hlog, Ledger.exec_append, State.live]

/-- A step that leaves `mine` beside the other live resources, and then releases `rs`, keeps
accounts exactly if what it leaves of its own is `kept`, what the next state should have. -/
theorem accounted_release (h : Inv script s) (ops : List (Op (Resource κ)))
    {rs mine base : List (Resource κ)} (kept : List (Resource κ))
    (hlog : s'.log = s.log ++ (ops ++ rs.map .release)) (hops : Ledger.Valid s.live ops)
    (hlive : (Ledger.exec s.live ops).Perm (mine ++ base))
    (howned : (s'.owned script).Perm (kept ++ base))
    (hserial : ∀ l ∈ s'.loaded, l.serial < s'.next) :
    (Accounted script s a s' ↔ mine.Perm (rs ++ kept)) ∧
      (Accounted script s a s' → Inv script s') := by
  have hexec : s'.live = Ledger.exec (Ledger.exec s.live ops) (rs.map .release) := by
    rw [live_of_log hlog, Ledger.exec_append]
  refine ⟨⟨fun hacc => ?_, fun hperm => accounted_of_inv ⟨?_, ?_, hserial⟩⟩,
    fun hacc => ⟨hacc.valid, hacc.live, hserial⟩⟩
  · have hvalid := hacc.valid
    rw [hlog, Ledger.valid_append, Ledger.valid_append] at hvalid
    have hleft := Ledger.perm_of_release hvalid.2.2
    have hnow : (Ledger.exec (Ledger.exec s.live ops) (rs.map .release)).Perm (kept ++ base) :=
      hexec ▸ hacc.live.trans howned
    have hsame : (mine ++ base).Perm (rs ++ kept ++ base) := by
      rw [List.append_assoc]
      exact (hlive.symm.trans hleft).trans (hnow.append_left rs)
    exact (List.perm_append_right_iff base).mp hsame
  all_goals
    have hmine : (Ledger.exec s.live ops).Perm (rs ++ (kept ++ base)) := by
      rw [← List.append_assoc]
      exact hlive.trans (hperm.append_right base)
  · rw [hlog, Ledger.valid_append, Ledger.valid_append]
    exact ⟨h.valid, hops, Ledger.valid_release hmine⟩
  · rw [hexec]
    exact (Ledger.exec_release hmine).trans howned.symm

variable [DecidableEq ι]

/-- A load keeps accounts exactly if it is clean. -/
theorem accounted_load (h : Inv script s) {i : ι} {fails : ℕ → Bool}
    (hstep : step script s (.load i fails) = some s') :
    (Accounted script s a s' ↔ Clean (script i) fails) ∧
      (Accounted script s a s' → Inv script s') := by
  obtain ⟨-, hsome⟩ := Option.ite_none_left_eq_some.mp hstep
  obtain rfl := Option.some.inj hsome
  have hnodup : (ofLoad s.next ((script i).load fails).acquired).Nodup :=
    ((script i).nodup_acquired fails).map fun _ _ h => congrArg Resource.kind h
  have hacquire : (Ledger.exec s.live
      ((ofLoad s.next ((script i).load fails).acquired).map .acquire)).Perm
        (ofLoad s.next ((script i).load fails).acquired ++ s.live) := Ledger.exec_acquire _
  have hlive := hacquire.trans (h.live.append_left _)
  have hvalid := Ledger.valid_acquire hnodup h.not_live
  rw [Clean, ← ofLoad_perm_iff (n := s.next), ofLoad_append]
  refine accounted_release h _ _ rfl hvalid hlive ?_ ?_
  · dsimp only [State.owned]
    split_ifs
    · rfl
    · rfl
  · intro l hl
    dsimp only at hl
    split_ifs at hl
    · rcases List.mem_cons.mp hl with rfl | hl
      · exact Nat.lt_succ_self s.next
      · exact Nat.lt_succ_of_lt (h.serial l hl)
    · exact Nat.lt_succ_of_lt (h.serial l hl)

/-- An unload keeps accounts exactly if the exit releases what the load acquired. -/
theorem accounted_unload (h : Inv script s) {i : ι} {fails : Bool}
    (hstep : step script s (.unload i fails) = some s') :
    (Accounted script s a s' ↔ CleanExit (script i) fails) ∧
      (Accounted script s a s' → Inv script s') := by
  obtain ⟨l, hl, rfl⟩ := Option.map_eq_some_iff.mp hstep
  have hmem := List.mem_of_find?_eq_some hl
  have hinst : l.inst = i := by simpa using List.find?_some hl
  have howned := (List.perm_cons_erase hmem).flatMap_right
    fun l => ofLoad l.serial (script l.inst).resources
  rw [List.flatMap_cons, hinst] at howned
  rw [CleanExit, List.perm_comm, ← ofLoad_perm_iff (n := l.serial)]
  rw [← List.append_nil (ofLoad l.serial ((script i).unload fails))]
  exact accounted_release h [] [] (by simp) True.intro (h.live.trans howned) .rfl
    fun l' hl' => h.serial l' (List.mem_of_mem_erase hl')

/-! ## Runs -/

theorem accounted_iff (h : Inv script s) (hstep : step script s a = some s') :
    (Accounted script s a s' ↔ CleanAction script s a s') ∧
      (Accounted script s a s' → Inv script s') := by
  cases a with
  | load i fails => exact accounted_load h hstep
  | unload i fails => exact accounted_unload h hstep

/-- Over every sequence of loads and unloads of any instances, whatever steps fail : each
resource is released once and only while it is live, and the live ones are those of the
loaded instances, if and only if all loads and unloads are clean. -/
theorem always_accounted_iff (as : List (Action ι)) :
    Transition.Always (step script) (Accounted script) start as ↔
      Transition.Always (step script) (CleanAction script) start as :=
  Transition.always_congr (I := Inv script) (fun _ _ _ h hstep => (accounted_iff h hstep).1)
    (fun _ _ _ h hstep => (accounted_iff h hstep).2) (inv_start script)

end Unwind
