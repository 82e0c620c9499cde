import Mathlib.Data.Nat.Notation
import Mathlib.Tactic.SplitIfs

/-!
# Bits that are set and cleared in a word

`put` replaces the bits of a mask. A function of a word that only sets and clears bits is
one `put` (`IsPut`); what it does is known from the words of all zeros and of all ones
(`IsPut.eq_put`).
-/

set_option autoImplicit false

namespace BitField

variable {w : ℕ}

/-- The bits of `mask` from `v`, the others from `x`. -/
def put (mask v x : BitVec w) : BitVec w :=
  (x &&& ~~~mask) ||| (v &&& mask)

/-- The bits of `m'` are bits of `m`. -/
def Sub (m' m : BitVec w) : Prop :=
  m' &&& ~~~m = 0

instance (m' m : BitVec w) : Decidable (Sub m' m) :=
  inferInstanceAs (Decidable (_ = _))

/-- The same bits outside of `mask`. -/
def Outside (mask x y : BitVec w) : Prop :=
  x &&& ~~~mask = y &&& ~~~mask

/-! ## Bit by bit -/

variable {m m' v v' x y : BitVec w}

theorem getLsbD_put (i : ℕ) :
    (put m v x).getLsbD i = if m.getLsbD i = true then v.getLsbD i else x.getLsbD i := by
  have hx : w ≤ i → x.getLsbD i = false := BitVec.getLsbD_of_ge x i
  simp only [put, BitVec.getLsbD_or, BitVec.getLsbD_and, BitVec.getLsbD_not]
  by_cases hi : i < w
  · cases m.getLsbD i <;> simp [hi]
  · cases m.getLsbD i <;> simp [hi, hx (Nat.le_of_not_lt hi)]

theorem sub_iff : Sub m' m ↔ ∀ i, m'.getLsbD i = true → m.getLsbD i = true := by
  constructor
  · intro h i hi
    have hbit := congrArg (fun b => b.getLsbD i) h
    have hlt := BitVec.lt_of_getLsbD hi
    simpa [hi, hlt] using hbit
  · intro h
    refine BitVec.eq_of_getLsbD_eq fun i hi => ?_
    have hbit := h i
    simp only [BitVec.getLsbD_and, BitVec.getLsbD_not]
    cases hm : m'.getLsbD i with
    | false => simp
    | true => simp [hbit hm]

theorem Sub.trans {k : BitVec w} (h : Sub k m') (h' : Sub m' m) : Sub k m :=
  sub_iff.mpr fun i hi => sub_iff.mp h' i (sub_iff.mp h i hi)

theorem outside_iff : Outside m x y ↔ ∀ i, m.getLsbD i = false → x.getLsbD i = y.getLsbD i := by
  constructor
  · intro h i hi
    by_cases hlt : i < w
    · have hbit := congrArg (fun b => b.getLsbD i) h
      simpa only [BitVec.getLsbD_and, BitVec.getLsbD_not, hi, hlt, decide_true, Bool.not_false,
        Bool.and_true] using hbit
    · rw [BitVec.getLsbD_of_ge _ _ (Nat.le_of_not_lt hlt),
        BitVec.getLsbD_of_ge _ _ (Nat.le_of_not_lt hlt)]
  · intro h
    refine BitVec.eq_of_getLsbD_eq fun i hi => ?_
    simp only [BitVec.getLsbD_and, BitVec.getLsbD_not]
    cases hm : m.getLsbD i with
    | false => rw [h i hm]
    | true => simp

/-- What is in `m` and not in the rest that `m'` leaves of it is in `m'`. -/
theorem Sub.of_left {k r : BitVec w} (h : Sub k m) (hleft : Sub (m &&& ~~~m') r)
    (hr : k &&& r = 0) : Sub k m' := by
  rw [sub_iff] at h hleft ⊢
  intro i hi
  have hlt := BitVec.lt_of_getLsbD hi
  have hbit := congrArg (fun b => b.getLsbD i) hr
  simp only [BitVec.getLsbD_and, hi, Bool.true_and] at hbit
  cases hm : m'.getLsbD i with
  | true => rfl
  | false =>
    have hmem : (m &&& ~~~m').getLsbD i = true := by
      simp only [BitVec.getLsbD_and, BitVec.getLsbD_not, h i hi, hm, hlt, decide_true,
        Bool.not_false, Bool.and_true]
    exact absurd (hleft i hmem) (by simp [hbit])

theorem ext_getLsbD (h : ∀ i, x.getLsbD i = y.getLsbD i) : x = y :=
  BitVec.eq_of_getLsbD_eq fun i _ => h i

/-! ## Words that agree -/

theorem Outside.refl (m x : BitVec w) : Outside m x x :=
  rfl

theorem Outside.trans {z : BitVec w} (h : Outside m x y) (h' : Outside m y z) : Outside m x z :=
  Eq.trans h h'

theorem Outside.mono (h : Outside m' x y) (hsub : Sub m' m) : Outside m x y := by
  rw [outside_iff] at h ⊢
  intro i hi
  refine h i ?_
  cases hm : m'.getLsbD i with
  | false => rfl
  | true => exact absurd (sub_iff.mp hsub i hm) (by simp [hi])

/-- A `put` changes no bit outside its mask. -/
theorem outside_put (m v x : BitVec w) : Outside m x (put m v x) := by
  rw [outside_iff]
  intro i hi
  rw [getLsbD_put, if_neg (by simp [hi])]

/-- Words that agree outside of `m` agree, after a `put`, outside of what it leaves of
`m`. -/
theorem Outside.put {k : BitVec w} (h : Outside m x y) (hsub : Sub (m &&& ~~~m') k) :
    Outside k (put m' v x) (put m' v y) := by
  rw [outside_iff] at h ⊢
  intro i hi
  rw [getLsbD_put, getLsbD_put]
  split_ifs with hm'
  · rfl
  · refine h i ?_
    cases hm : m.getLsbD i with
    | false => rfl
    | true =>
      have hlt := BitVec.lt_of_getLsbD hm
      have hleft : (m &&& ~~~m').getLsbD i = true := by
        simp only [BitVec.getLsbD_and, BitVec.getLsbD_not, hm, hm', hlt, decide_true,
          Bool.not_false, Bool.and_true]
      have hk := sub_iff.mp hsub i hleft
      exact absurd hk (by simp [hi])

theorem Outside.put_eq (h : Outside m x y) (hsub : Sub m m') :
    BitField.put m' v x = BitField.put m' v y := by
  refine ext_getLsbD fun i => ?_
  rw [getLsbD_put, getLsbD_put]
  split_ifs with hm'
  · rfl
  · refine outside_iff.mp h i ?_
    cases hm : m.getLsbD i with
    | false => rfl
    | true => exact absurd (sub_iff.mp hsub i hm) hm'

/-- The bits read back are those put. -/
theorem put_and {k : BitVec w} (h : Sub k m) : put m v x &&& k = v &&& k := by
  refine ext_getLsbD fun i => ?_
  simp only [BitVec.getLsbD_and, getLsbD_put]
  cases hk : k.getLsbD i with
  | false => simp
  | true => rw [if_pos (sub_iff.mp h i hk)]

/-! ## Functions that set and clear -/

/-- A function that only sets and clears bits. -/
def IsPut (f : BitVec w → BitVec w) : Prop :=
  ∃ m v, ∀ x, f x = put m v x

theorem IsPut.id : IsPut (fun x : BitVec w => x) :=
  ⟨0, 0, fun x => by simp [put]⟩

theorem IsPut.clear {f : BitVec w → BitVec w} (h : IsPut f) (k : BitVec w) :
    IsPut fun x => f x &&& ~~~k := by
  obtain ⟨m, v, hf⟩ := h
  refine ⟨m ||| k, v &&& ~~~k, fun x => ext_getLsbD fun i => ?_⟩
  have hx : w ≤ i → x.getLsbD i = false := BitVec.getLsbD_of_ge x i
  have hv : w ≤ i → v.getLsbD i = false := BitVec.getLsbD_of_ge v i
  simp only [hf, BitVec.getLsbD_and, BitVec.getLsbD_or, BitVec.getLsbD_not, getLsbD_put]
  by_cases hi : i < w
  · cases m.getLsbD i <;> cases k.getLsbD i <;> simp [hi]
  · cases m.getLsbD i <;> cases k.getLsbD i <;>
      simp [hi, hx (Nat.le_of_not_lt hi)]

theorem IsPut.set {f : BitVec w → BitVec w} (h : IsPut f) (k : BitVec w) :
    IsPut fun x => f x ||| k := by
  obtain ⟨m, v, hf⟩ := h
  refine ⟨m ||| k, v ||| k, fun x => ext_getLsbD fun i => ?_⟩
  simp only [hf, BitVec.getLsbD_or, getLsbD_put]
  cases m.getLsbD i <;> cases k.getLsbD i <;> simp

theorem IsPut.comp {f g : BitVec w → BitVec w} (hg : IsPut g) (hf : IsPut f) :
    IsPut fun x => g (f x) := by
  obtain ⟨m, v, hf⟩ := hf
  obtain ⟨m', v', hg⟩ := hg
  refine ⟨m ||| m', put m' v' v, fun x => ext_getLsbD fun i => ?_⟩
  simp only [hf, hg, getLsbD_put, BitVec.getLsbD_or]
  cases m.getLsbD i <;> cases m'.getLsbD i <;> simp

/-- The bits that a function changes to what it makes of zeros and ones alike. -/
def touched (f : BitVec w → BitVec w) : BitVec w :=
  f 0 ^^^ ~~~f (~~~0)

theorem IsPut.eq_put {f : BitVec w → BitVec w} (h : IsPut f) (x : BitVec w) :
    f x = put (touched f) (f 0) x := by
  obtain ⟨m, v, hf⟩ := h
  refine BitVec.eq_of_getLsbD_eq fun i hi => ?_
  simp only [touched, hf, getLsbD_put, BitVec.getLsbD_xor, BitVec.getLsbD_not]
  cases hm : m.getLsbD i <;> cases hv : v.getLsbD i <;> simp [hi]

/-- The bits of a function that it has touched do not depend on the word. -/
theorem IsPut.and_eq {f : BitVec w → BitVec w} (h : IsPut f) {k : BitVec w}
    (hk : Sub k (touched f)) (x : BitVec w) : f x &&& k = f 0 &&& k := by
  rw [h.eq_put x, put_and hk]

theorem IsPut.outside {f : BitVec w → BitVec w} (h : IsPut f) (hm : Sub (touched f) m)
    (x : BitVec w) : Outside m x (f x) := by
  rw [h.eq_put x]
  exact (outside_put _ _ x).mono hm

end BitField
