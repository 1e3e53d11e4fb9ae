import DecimalPoly.Decimal.Basic
import Mathlib.Algebra.Order.Field.Power
import Mathlib.Data.Rat.Floor
import Mathlib.Tactic.FieldSimp
import Mathlib.Tactic.Linarith
import Mathlib.Tactic.Ring

/-! The rational number that a decimal stands for. Arithmetic on decimals is arithmetic on these
numbers, and two decimals with one value are the same. -/
namespace DecimalPoly

theorem tenPow_eq (n : Nat) : tenPow n = 10 ^ n := rfl

@[simp] theorem tenPow_cast (n : Nat) : (tenPow n : ℚ) = 10 ^ n := by
  rw [tenPow_eq, Nat.cast_pow, Nat.cast_ofNat]

namespace Decimal

def toRat (d : Decimal) : ℚ := d.mantissa / 10 ^ d.scale

theorem stripZeros_value (m : Int) (s : Nat) :
    ((stripZeros m s).1 : ℚ) / 10 ^ (stripZeros m s).2 = m / 10 ^ s := by
  induction s generalizing m with
  | zero => rfl
  | succ s ih =>
    rw [stripZeros]
    split
    · next h =>
      have hm : (m : ℚ) = (m / 10 : ℤ) * 10 := by
        exact_mod_cast (Int.ediv_mul_cancel (Int.dvd_of_emod_eq_zero h)).symm
      rw [ih, hm, pow_succ, mul_div_mul_right _ _ (by norm_num)]
    · rfl

@[simp] theorem toRat_ofScaled (m : Int) (s : Nat) : (ofScaled m s).toRat = m / 10 ^ s := by
  rw [ofScaled]
  split
  · next h =>
    subst h
    simp [toRat, show (0 : Decimal) = ofInt 0 from rfl, ofInt]
  · exact stripZeros_value m s

@[simp] theorem toRat_ofInt (n : Int) : (ofInt n).toRat = n := by
  simp [toRat, ofInt]

@[simp] theorem toRat_zero : (0 : Decimal).toRat = 0 := (toRat_ofInt 0).trans Int.cast_zero

@[simp] theorem toRat_one : (1 : Decimal).toRat = 1 := (toRat_ofInt 1).trans Int.cast_one

theorem rescaled_value (m : Int) {k s : Nat} (h : k ≤ s) :
    ((m * tenPow (s - k) : Int) : ℚ) = m / 10 ^ k * 10 ^ s := by
  have hs : (10 : ℚ) ^ s = 10 ^ k * 10 ^ (s - k) := by
    rw [← pow_add, Nat.add_sub_cancel' h]
  have h10 : (10 : ℚ) ^ k ≠ 0 := by positivity
  simp only [Int.cast_mul, Int.cast_natCast, tenPow_cast, hs]
  field_simp

theorem mantissaAt_value (d : Decimal) {s : Nat} (h : d.scale ≤ s) :
    (d.mantissaAt s : ℚ) = d.toRat * 10 ^ s := rescaled_value d.mantissa h

@[simp] theorem toRat_add (a b : Decimal) : (a + b).toRat = a.toRat + b.toRat := by
  change (ofScaled (a.mantissaAt (max a.scale b.scale) + b.mantissaAt (max a.scale b.scale))
    (max a.scale b.scale)).toRat = _
  rw [toRat_ofScaled, Int.cast_add, mantissaAt_value a (Nat.le_max_left ..),
    mantissaAt_value b (Nat.le_max_right ..), ← add_mul]
  exact mul_div_cancel_right₀ _ (by positivity)

@[simp] theorem toRat_sub (a b : Decimal) : (a - b).toRat = a.toRat - b.toRat := by
  change (ofScaled (a.mantissaAt (max a.scale b.scale) - b.mantissaAt (max a.scale b.scale))
    (max a.scale b.scale)).toRat = _
  rw [toRat_ofScaled, Int.cast_sub, mantissaAt_value a (Nat.le_max_left ..),
    mantissaAt_value b (Nat.le_max_right ..), ← sub_mul]
  exact mul_div_cancel_right₀ _ (by positivity)

@[simp] theorem toRat_mul (a b : Decimal) : (a * b).toRat = a.toRat * b.toRat := by
  change (ofScaled (a.mantissa * b.mantissa) (a.scale + b.scale)).toRat = _
  rw [toRat_ofScaled, Int.cast_mul, pow_add, toRat, toRat, div_mul_div_comm]

@[simp] theorem toRat_neg (d : Decimal) : (-d).toRat = -d.toRat := by
  change ((-d.mantissa : ℤ) : ℚ) / 10 ^ d.scale = _
  rw [Int.cast_neg, neg_div, toRat]

@[simp] theorem toRat_abs (d : Decimal) : d.abs.toRat = |d.toRat| := by
  have h : (d.mantissa.natAbs : ℚ) = |(d.mantissa : ℚ)| := Nat.cast_natAbs d.mantissa |>.trans
    (Int.cast_abs ..)
  change ((d.mantissa.natAbs : ℤ) : ℚ) / 10 ^ d.scale = _
  rw [Int.cast_natCast, h, toRat, abs_div, abs_of_pos (by positivity : (0 : ℚ) < 10 ^ d.scale)]

@[simp] theorem toRat_pow (d : Decimal) (n : Nat) : (d.pow n).toRat = d.toRat ^ n := by
  have h : ((d.mantissa.pow n : ℤ) : ℚ) = (d.mantissa : ℚ) ^ n := Int.cast_pow d.mantissa n
  rw [pow, toRat_ofScaled, h, toRat, div_pow, pow_mul]

theorem scale_le_of_toRat_eq_div {d : Decimal} {m : Int} {k : Nat} (h : d.toRat = m / 10 ^ k) :
    d.scale ≤ k := by
  by_contra hlt
  push Not at hlt
  obtain ⟨n, hn⟩ := Nat.exists_eq_add_of_lt hlt
  -- a larger scale would leave a zero at the end of the mantissa
  have hm : (d.mantissa : ℚ) = (m * 10 ^ n * 10 : ℤ) := by
    have h10 : (10 : ℚ) ^ k ≠ 0 := by positivity
    rw [toRat, div_eq_div_iff (by positivity) h10, hn, pow_succ, pow_add] at h
    have := mul_right_cancel₀ h10 (h.trans (by ring :
      _ = ((m : ℚ) * 10 ^ n * 10) * 10 ^ k))
    push_cast
    exact this
  have hz : d.mantissa = m * 10 ^ n * 10 := by exact_mod_cast hm
  cases d.lowest with
  | inl hs => omega
  | inr hs => exact hs (by rw [hz]; exact Int.mul_emod_left ..)

/-- The scale is the least number of places at which the number can be written. -/
theorem scale_le_iff {d : Decimal} {k : Nat} : d.scale ≤ k ↔ ∃ m : Int, d.toRat = m / 10 ^ k := by
  constructor
  · intro h
    refine ⟨d.mantissaAt k, ?_⟩
    rw [mantissaAt_value d h, mul_div_cancel_right₀ _ (by positivity)]
  · rintro ⟨m, h⟩
    exact scale_le_of_toRat_eq_div h

theorem scale_ofScaled_le (m : Int) (s : Nat) : (ofScaled m s).scale ≤ s :=
  scale_le_of_toRat_eq_div (toRat_ofScaled m s)

theorem toRat_injective {a b : Decimal} (h : a.toRat = b.toRat) : a = b := by
  have hs : a.scale = b.scale :=
    Nat.le_antisymm (scale_le_of_toRat_eq_div h) (scale_le_of_toRat_eq_div h.symm)
  have hm : (a.mantissa : ℚ) = b.mantissa := by
    rwa [toRat, toRat, hs, div_left_inj' (by positivity)] at h
  exact ext (by exact_mod_cast hm) hs

theorem toRat_inj {a b : Decimal} : a.toRat = b.toRat ↔ a = b := ⟨toRat_injective, congrArg toRat⟩

theorem ofScaled_eq_ofScaled {m n : Int} {s t : Nat} :
    ofScaled m s = ofScaled n t ↔ m * 10 ^ t = n * 10 ^ s := by
  rw [← toRat_inj, toRat_ofScaled, toRat_ofScaled, div_eq_div_iff (by positivity) (by positivity)]
  norm_cast

theorem ofScaled_self (d : Decimal) : ofScaled d.mantissa d.scale = d :=
  toRat_injective (toRat_ofScaled ..)

theorem toRat_eq_zero {d : Decimal} : d.toRat = 0 ↔ d = 0 :=
  ⟨fun h => toRat_injective (by rw [h, toRat_zero]), fun h => by rw [h, toRat_zero]⟩

theorem mul_zero (a : Decimal) : a * 0 = 0 := toRat_injective (by simp)

theorem sub_zero (a : Decimal) : a - 0 = a := toRat_injective (by simp)

theorem mantissa_eq_zero {d : Decimal} : d.mantissa = 0 ↔ d = 0 := by
  rw [← toRat_eq_zero, toRat, div_eq_zero_iff]
  simp

theorem isNegative_iff {d : Decimal} : d.isNegative = true ↔ d.toRat < 0 := by
  rw [isNegative, decide_eq_true_eq, toRat, div_lt_iff₀ (by positivity), zero_mul,
    Int.cast_lt_zero]

end Decimal
end DecimalPoly
