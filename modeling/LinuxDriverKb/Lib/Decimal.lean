import Mathlib.Data.List.TakeWhile
import Mathlib.Data.Nat.Digits.Lemmas

/-!
# Decimal integers in byte strings

`integer` reads the decimal integer a string starts with : an optional sign and as many
digits as there are, at least one. `Starts` says what that is, without reading. `print` is
the other direction.

`integer_eq_some_iff` : what is read is what the string starts with. `integer_print` : what
is printed is read back.
-/

set_option autoImplicit false

namespace Decimal

/-! ## Digits -/

/-- The characters of digits. -/
def isDigit (b : UInt8) : Bool :=
  48 ≤ b && b ≤ 57

/-- The number of a digit. -/
def ofDigit (b : UInt8) : ℕ :=
  b.toNat - 48

/-- The character of a digit. -/
def toDigit (d : ℕ) : UInt8 :=
  .ofNat (48 + d)

/-- The value of a string of digits. -/
def value (ds : List UInt8) : ℕ :=
  ds.foldl (fun n b => 10 * n + ofDigit b) 0

theorem isDigit_toDigit {d : ℕ} (h : d < 10) : isDigit (toDigit d) = true := by
  have hall : ∀ d < 10, isDigit (toDigit d) = true := by decide
  exact hall d h

theorem ofDigit_toDigit {d : ℕ} (h : d < 10) : ofDigit (toDigit d) = d := by
  have hall : ∀ d < 10, ofDigit (toDigit d) = d := by decide
  exact hall d h

/-- The value in terms of the digits, the lowest first. -/
theorem value_eq_ofDigits (ds : List UInt8) :
    value ds = Nat.ofDigits 10 (ds.reverse.map ofDigit) := by
  rw [Nat.ofDigits_eq_foldr, List.foldr_map, List.foldr_reverse, value]
  refine congrArg (fun f => List.foldl f 0 ds) ?_
  funext n b
  exact Nat.add_comm _ _

/-! ## Reading -/

/-- `-` and `+`. -/
def minusSign : UInt8 := 45

/-- The character `+`. -/
def plusSign : UInt8 := 43

/-- The number a string of digits at the start has, if there is a digit. -/
def natural (bs : List UInt8) : Option ℕ :=
  if bs.takeWhile isDigit = [] then none else some (value (bs.takeWhile isDigit))

/-- The integer at the start of a string; `plus` : a plus sign is taken for a sign. -/
def integer (plus : Bool) : List UInt8 → Option ℤ
  | [] => none
  | b :: bs =>
    if b = minusSign then (natural bs).map fun n : ℕ => -(n : ℤ)
    else if plus = true ∧ b = plusSign then (natural bs).map fun n : ℕ => (n : ℤ)
    else (natural (b :: bs)).map fun n : ℕ => (n : ℤ)

/-- A sign, and the integer it makes of a number. -/
inductive Signed (plus : Bool) : List UInt8 → ℕ → ℤ → Prop
  | none (n : ℕ) : Signed plus [] n n
  | minus (n : ℕ) : Signed plus [minusSign] n (-n)
  | plus (n : ℕ) : plus = true → Signed plus [plusSign] n n

/-- The string is digits, at least one, and a rest that starts with none. -/
structure Digits (bs ds rest : List UInt8) : Prop where
  eq : bs = ds ++ rest
  ne_nil : ds ≠ []
  digits : ∀ b ∈ ds, isDigit b = true
  rest : ∀ b ∈ rest.head?, isDigit b = false

/-- The string starts with the decimal integer `v`. -/
def Starts (plus : Bool) (bs : List UInt8) (v : ℤ) : Prop :=
  ∃ sign tail ds rest, bs = sign ++ tail ∧ Digits tail ds rest ∧ Signed plus sign (value ds) v

variable {plus : Bool} {bs ds rest : List UInt8} {v : ℤ} {n : ℕ}

theorem Digits.takeWhile_eq (h : Digits bs ds rest) : bs.takeWhile isDigit = ds := by
  have hrest : rest.takeWhile isDigit = [] := by
    cases hr : rest with
    | nil => rfl
    | cons b bs => simp [h.rest b (by simp [hr])]
  rw [h.eq, List.takeWhile_append_of_pos h.digits, hrest, List.append_nil]

theorem natural_eq_some_iff :
    natural bs = some n ↔ ∃ ds rest, Digits bs ds rest ∧ value ds = n := by
  constructor
  · intro h
    unfold natural at h
    split_ifs at h with hnil
    refine ⟨bs.takeWhile isDigit, bs.dropWhile isDigit, ⟨?_, hnil, ?_, ?_⟩, Option.some.inj h⟩
    · exact List.takeWhile_append_dropWhile.symm
    · exact fun b hb => List.mem_takeWhile_imp hb
    · intro b hb
      have hhead := List.head?_dropWhile_not isDigit bs
      rw [Option.mem_def.mp hb] at hhead
      exact hhead
  · rintro ⟨ds, rest, hd, rfl⟩
    rw [natural, hd.takeWhile_eq, if_neg hd.ne_nil]

theorem Digits.natural_eq (h : Digits bs ds rest) : natural bs = some (value ds) :=
  natural_eq_some_iff.mpr ⟨ds, rest, h, rfl⟩

/-- A string of digits has no sign. -/
theorem Digits.integer_eq (h : Digits bs ds rest) (plus : Bool) :
    integer plus bs = some (value ds : ℤ) := by
  obtain ⟨b, tail, rfl⟩ := List.exists_cons_of_ne_nil h.ne_nil
  have hdigit := h.digits b List.mem_cons_self
  have hminus : b ≠ minusSign := fun hb => by
    rw [hb] at hdigit
    exact absurd hdigit (by decide)
  have hplus : b ≠ plusSign := fun hb => by
    rw [hb] at hdigit
    exact absurd hdigit (by decide)
  have hnatural := h.natural_eq
  rw [h.eq] at hnatural ⊢
  rw [List.cons_append] at hnatural ⊢
  rw [integer, if_neg hminus, if_neg fun hp => hplus hp.2, hnatural]
  rfl

/-- What is read is what the string starts with. -/
theorem integer_eq_some_iff : integer plus bs = some v ↔ Starts plus bs v := by
  constructor
  · intro h
    cases bs with
    | nil => exact nomatch h
    | cons b bs =>
      simp only [integer] at h
      split_ifs at h with hminus hplus
      all_goals
        obtain ⟨n, hn, rfl⟩ := Option.map_eq_some_iff.mp h
        obtain ⟨ds, rest, hd, rfl⟩ := natural_eq_some_iff.mp hn
      · exact ⟨[minusSign], bs, ds, rest, by rw [hminus]; rfl, hd, .minus _⟩
      · exact ⟨[plusSign], bs, ds, rest, by rw [hplus.2]; rfl, hd, .plus _ hplus.1⟩
      · exact ⟨[], b :: bs, ds, rest, rfl, hd, .none _⟩
  · rintro ⟨sign, tail, ds, rest, rfl, hd, hsigned⟩
    cases hsigned with
    | none => exact hd.integer_eq plus
    | minus =>
      rw [List.singleton_append, integer, if_pos rfl, hd.natural_eq]
      rfl
    | plus _ hplus =>
      rw [List.singleton_append, integer, if_neg (by decide), if_pos ⟨hplus, rfl⟩, hd.natural_eq]
      rfl

/-! ## Printing -/

/-- The digits of a number, from the first. -/
def printNat (n : ℕ) : List UInt8 :=
  if n = 0 then [toDigit 0] else (Nat.digits 10 n).reverse.map toDigit

/-- `%d`, as a list of characters. -/
def print (v : ℤ) : List UInt8 :=
  if v < 0 then minusSign :: printNat v.natAbs else printNat v.natAbs

theorem value_printNat (n : ℕ) : value (printNat n) = n := by
  unfold printNat
  split_ifs with hzero
  · rw [hzero]
    rfl
  · have hmap : (Nat.digits 10 n).map (ofDigit ∘ toDigit) = Nat.digits 10 n := by
      calc (Nat.digits 10 n).map (ofDigit ∘ toDigit)
          = (Nat.digits 10 n).map id :=
            List.map_congr_left fun d hd => ofDigit_toDigit (Nat.digits_lt_base (by decide) hd)
        _ = Nat.digits 10 n := List.map_id _
    rw [value_eq_ofDigits, ← List.map_reverse, List.reverse_reverse, List.map_map, hmap,
      Nat.ofDigits_digits]

theorem digits_printNat (n : ℕ) (h : ∀ b ∈ rest.head?, isDigit b = false) :
    Digits (printNat n ++ rest) (printNat n) rest := by
  refine ⟨rfl, ?_, ?_, h⟩
  · unfold printNat
    split_ifs with hzero
    · simp
    · simpa using Nat.digits_ne_nil_iff_ne_zero.mpr hzero
  · intro b hb
    unfold printNat at hb
    split_ifs at hb with hzero
    · rw [List.mem_singleton.mp hb]
      rfl
    · obtain ⟨d, hd, rfl⟩ := List.mem_map.mp hb
      exact isDigit_toDigit (Nat.digits_lt_base (by decide) (List.mem_reverse.mp hd))

/-- What is printed is read back, if no digit follows. -/
theorem integer_print (v : ℤ) (h : ∀ b ∈ rest.head?, isDigit b = false) :
    integer plus (print v ++ rest) = some v := by
  have hd := digits_printNat v.natAbs h
  have hvalue := value_printNat v.natAbs
  unfold print
  split_ifs with hneg
  · refine integer_eq_some_iff.mpr ⟨[minusSign], _, _, rest, rfl, hd, ?_⟩
    have hsigned : Signed plus [minusSign] v.natAbs (-v.natAbs) := .minus _
    have habs : -(v.natAbs : ℤ) = v := by omega
    rw [habs] at hsigned
    rw [hvalue]
    exact hsigned
  · rw [hd.integer_eq, hvalue, Int.natAbs_of_nonneg (Int.not_lt.mp hneg)]

/-! ## Printing and nothing else -/

theorem digits_printNat_self (n : ℕ) : Digits (printNat n) (printNat n) [] := by
  have hnone : ∀ b ∈ ([] : List UInt8).head?, isDigit b = false := by simp
  have h := digits_printNat n hnone
  rwa [List.append_nil] at h

theorem integer_print_self (plus : Bool) (v : ℤ) : integer plus (print v) = some v := by
  have hnone : ∀ b ∈ ([] : List UInt8).head?, isDigit b = false := by simp
  have h : integer plus (print v ++ []) = some v := integer_print v hnone
  rwa [List.append_nil] at h

/-! ## Lengths -/

/-- The digits of a number below a power of ten. -/
theorem length_printNat {n k : ℕ} (hk : 0 < k) (h : n < 10 ^ k) : (printNat n).length ≤ k := by
  unfold printNat
  split_ifs with hzero
  · exact hk
  · rw [List.length_map, List.length_reverse]
    exact (Nat.digits_length_le_iff (by decide) n).mpr h

theorem length_print {v : ℤ} {k : ℕ} (hk : 0 < k) (h : v.natAbs < 10 ^ k) :
    (print v).length ≤ k + 1 := by
  have hlen := length_printNat hk h
  unfold print
  split_ifs
  · exact Nat.succ_le_succ hlen
  · exact Nat.le_succ_of_le hlen

/-! ## A number cut short -/

/-- The first digits of a number. -/
theorem value_take_printNat {n : ℕ} (h : n ≠ 0) (k : ℕ) :
    value ((printNat n).take k) = n / 10 ^ ((Nat.digits 10 n).length - k) := by
  have hdigits : ((printNat n).take k).reverse.map ofDigit =
      (Nat.digits 10 n).drop ((Nat.digits 10 n).length - k) := by
    rw [printNat, if_neg h, ← List.map_take, ← List.map_reverse, List.map_map, List.take_reverse,
      List.reverse_reverse]
    calc ((Nat.digits 10 n).drop ((Nat.digits 10 n).length - k)).map (ofDigit ∘ toDigit)
        = ((Nat.digits 10 n).drop ((Nat.digits 10 n).length - k)).map id :=
          List.map_congr_left fun d hd =>
            ofDigit_toDigit (Nat.digits_lt_base (by decide) (List.mem_of_mem_drop hd))
      _ = _ := List.map_id _
  rw [value_eq_ofDigits, hdigits, Nat.self_div_pow_eq_ofDigits_drop _ _ (by decide)]

theorem Digits.take (h : Digits bs bs []) {k : ℕ} (hk : 0 < k) :
    Digits (bs.take k) (bs.take k) [] := by
  obtain ⟨b, tail, rfl⟩ := List.exists_cons_of_ne_nil h.ne_nil
  obtain ⟨k, rfl⟩ := Nat.exists_eq_succ_of_ne_zero hk.ne'
  refine ⟨(List.append_nil _).symm, by simp, fun b hb => h.digits b (List.mem_of_mem_take hb), ?_⟩
  simp

/-- The first `k` digits are the number, or a number of `k` digits. -/
theorem le_value_take_printNat {n k m : ℕ} (hn : m ≤ n) (hm : m ≤ 10 ^ (k - 1)) (hk : 0 < k) :
    m ≤ value ((printNat n).take k) ∧ value ((printNat n).take k) ≤ n := by
  rcases Nat.eq_zero_or_pos n with rfl | hpos
  · have hone : (printNat 0).take k = printNat 0 := List.take_of_length_le hk
    rw [hone, value_printNat]
    exact ⟨hn, Nat.le_refl 0⟩
  · rw [value_take_printNat hpos.ne']
    refine ⟨?_, Nat.div_le_self n _⟩
    rcases Nat.le_total (Nat.digits 10 n).length k with hlen | hlen
    · rwa [Nat.sub_eq_zero_of_le hlen, Nat.pow_zero, Nat.div_one]
    · rw [Nat.le_div_iff_mul_le (Nat.pow_pos (by decide))]
      have hlow : 10 ^ ((Nat.digits 10 n).length - 1) ≤ n :=
        Nat.lt_digits_length_iff (by decide) n |>.mp (by omega)
      calc m * 10 ^ ((Nat.digits 10 n).length - k)
          ≤ 10 ^ (k - 1) * 10 ^ ((Nat.digits 10 n).length - k) := Nat.mul_le_mul_right _ hm
        _ = 10 ^ ((Nat.digits 10 n).length - 1) := by
          rw [← Nat.pow_add]
          congr 1
          omega
        _ ≤ n := hlow

/-- An integer of which only the first bytes are left starts with one of the same sign, no
farther from zero; and no closer than `m`, if that has fewer digits. -/
theorem starts_take_print (plus : Bool) {v : ℤ} {k m : ℕ} (hv : m ≤ v.natAbs)
    (hm : m ≤ 10 ^ (k - 1)) (hk : 0 < k) :
    ∃ n, m ≤ n ∧ n ≤ v.natAbs ∧
      Starts plus ((print v).take (k + 1)) (if v < 0 then -n else n) := by
  have hd := digits_printNat_self v.natAbs
  unfold print
  split_ifs with hneg
  · obtain ⟨hlow, hhigh⟩ := le_value_take_printNat hv hm hk
    exact ⟨_, hlow, hhigh, [minusSign], _, _, [], rfl, hd.take hk, .minus _⟩
  · obtain ⟨hlow, hhigh⟩ := le_value_take_printNat (k := k + 1) hv
      (hm.trans (Nat.pow_le_pow_right (by decide) (by omega))) (Nat.succ_pos k)
    exact ⟨_, hlow, hhigh, [], _, _, [], rfl, hd.take (Nat.succ_pos k), .none _⟩

end Decimal
