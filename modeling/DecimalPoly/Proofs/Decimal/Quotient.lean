import DecimalPoly.Proofs.Decimal.Digits
import Mathlib.Data.Sign.Basic

/-! The quotient of two decimals to a number of significant digits. The cut quotient is the floor of
the exact one at a scale that leaves one or two digits to drop; dropping them rounds the exact
quotient to nearest. -/
namespace DecimalPoly.Decimal

theorem natAbs_pos {d : Decimal} (h : d ≠ 0) : 0 < d.mantissa.natAbs :=
  Int.natAbs_pos.mpr (mt mantissa_eq_zero.mp h)

theorem abs_toRat (d : Decimal) : |d.toRat| = d.mantissa.natAbs / 10 ^ d.scale := by
  rw [← toRat_abs]
  rfl

def cutShift (a b : Decimal) (p : Nat) : ℤ :=
  p + 1 - (numDigits a.mantissa.natAbs - numDigits b.mantissa.natAbs)

theorem cutQuotient_scale (a b : Decimal) (p : Nat) :
    (cutQuotient a b p).scale = cutShift a b p + a.scale - b.scale := rfl

theorem floor_ratio (m n : Nat) (hn : 0 < n) :
    ((m / n : ℕ) : ℚ) ≤ (m : ℚ) / n ∧ (m : ℚ) / n < (m / n : ℕ) + 1 ∧
      (decide (m % n ≠ 0) = true ↔ (m : ℚ) / n ≠ (m / n : ℕ)) := by
  have hn' : (0 : ℚ) < n := by exact_mod_cast hn
  have hsplit : (m : ℚ) = n * (m / n : ℕ) + (m % n : ℕ) := by
    exact_mod_cast (Nat.div_add_mod m n).symm
  have hrest : ((m % n : ℕ) : ℚ) < n := by exact_mod_cast Nat.mod_lt m hn
  have hzero : (0 : ℚ) ≤ (m % n : ℕ) := Nat.cast_nonneg _
  refine ⟨?_, ?_, ?_⟩
  · rw [le_div_iff₀ hn']
    linarith
  · rw [div_lt_iff₀ hn']
    linarith
  · rw [decide_eq_true_eq, not_iff_not, div_eq_iff hn'.ne', ← Nat.cast_eq_zero (R := ℚ)]
    constructor <;> intro h <;> linarith

theorem cutQuotient_exact {a b : Decimal} (hb : b ≠ 0) (p : Nat) :
    |a.toRat / b.toRat| * 10 ^ (cutQuotient a b p).scale =
      ((a.mantissa.natAbs * tenPow (cutShift a b p).toNat : ℕ) : ℚ) /
        ((b.mantissa.natAbs * tenPow (-cutShift a b p).toNat : ℕ) : ℚ) := by
  have hn : (b.mantissa.natAbs : ℚ) ≠ 0 := by exact_mod_cast (natAbs_pos hb).ne'
  rw [cutQuotient_scale, abs_div, abs_toRat, abs_toRat, zpow_sub₀ (by norm_num),
    zpow_add₀ (by norm_num), ten_zpow_eq (cutShift a b p), zpow_natCast, zpow_natCast]
  push_cast [tenPow_cast]
  field_simp

theorem cutQuotient_floor {a b : Decimal} (hb : b ≠ 0) (p : Nat) :
    let x := |a.toRat / b.toRat| * 10 ^ (cutQuotient a b p).scale
    ((cutQuotient a b p).digits : ℚ) ≤ x ∧ x < (cutQuotient a b p).digits + 1 ∧
      ((cutQuotient a b p).inexact = true ↔ x ≠ (cutQuotient a b p).digits) := by
  intro x
  have hx : x = _ := cutQuotient_exact hb p
  rw [hx]
  exact floor_ratio _ _ (Nat.mul_pos (natAbs_pos hb) (tenPow_pos _))

theorem cutQuotient_scaled {a b : Decimal} (hb : b ≠ 0) (p : Nat) :
    |a.toRat / b.toRat| * 10 ^ (cutQuotient a b p).scale =
      a.mantissa.natAbs / b.mantissa.natAbs * 10 ^ cutShift a b p := by
  have hn : (b.mantissa.natAbs : ℚ) ≠ 0 := by exact_mod_cast (natAbs_pos hb).ne'
  rw [cutQuotient_exact hb, ten_zpow_eq]
  push_cast [tenPow_cast]
  field_simp

theorem cutQuotient_bounds {a b : Decimal} (ha : a ≠ 0) (hb : b ≠ 0) (p : Nat) :
    (10 : ℚ) ^ p < |a.toRat / b.toRat| * 10 ^ (cutQuotient a b p).scale ∧
      |a.toRat / b.toRat| * 10 ^ (cutQuotient a b p).scale < 10 ^ (p + 2) := by
  have h10 : (10 : ℚ) ≠ 0 := by norm_num
  obtain ⟨hlo, hhi⟩ := ratio_bounds (natAbs_pos ha) (natAbs_pos hb)
  have hscaled (s : ℤ) : (10 : ℚ) ^ ((numDigits a.mantissa.natAbs : ℤ) -
      numDigits b.mantissa.natAbs + s) * 10 ^ cutShift a b p = 10 ^ (p + 1 + s) := by
    rw [← zpow_add₀ h10, cutShift]
    congr 1
    ring
  have hpos : (0 : ℚ) < 10 ^ cutShift a b p := by positivity
  rw [cutQuotient_scaled hb]
  constructor
  · calc (10 : ℚ) ^ p = 10 ^ ((p : ℤ) + 1 + -1) := by
          rw [add_neg_cancel_right, zpow_natCast]
      _ = _ := (hscaled (-1)).symm
      _ < _ := by
          rw [← sub_eq_add_neg]
          gcongr
  · calc _ < (10 : ℚ) ^ ((numDigits a.mantissa.natAbs : ℤ) -
          numDigits b.mantissa.natAbs + 1) * 10 ^ cutShift a b p := by gcongr
      _ = 10 ^ ((p : ℤ) + 1 + 1) := hscaled 1
      _ = 10 ^ (p + 2) := by
          rw [add_assoc, one_add_one_eq_two]
          exact_mod_cast rfl

theorem numDigits_cutQuotient {a b : Decimal} (ha : a ≠ 0) (hb : b ≠ 0) (p : Nat) :
    p + 1 ≤ numDigits (cutQuotient a b p).digits ∧
      numDigits (cutQuotient a b p).digits ≤ p + 2 := by
  obtain ⟨hle, hlt, -⟩ := cutQuotient_floor (a := a) hb p
  obtain ⟨hlo, hhi⟩ := cutQuotient_bounds ha hb p
  have hdigits : 10 ^ p ≤ (cutQuotient a b p).digits := by
    have : (10 ^ p : ℚ) < (cutQuotient a b p).digits + 1 := hlo.trans hlt
    exact Nat.lt_succ_iff.mp (by exact_mod_cast this)
  constructor
  · cases p with
    | zero => exact numDigits_pos _
    | succ p => exact (lt_numDigits_iff (Nat.succ_pos p)).mpr hdigits
  · rw [numDigits_le_iff (by omega)]
    have : ((cutQuotient a b p).digits : ℚ) < 10 ^ (p + 2) := hle.trans_lt hhi
    exact_mod_cast this

theorem toRat_ofSignedScale (m s : ℤ) : (ofSignedScale m s).toRat = m * 10 ^ (-s) := by
  rw [ofSignedScale, toRat_ofScaled, ten_zpow_eq, neg_neg]
  push_cast [tenPow_cast]
  exact (mul_div_assoc ..)

theorem sign_toRat (d : Decimal) : (SignType.sign d.toRat : ℚ) = (d.mantissa.sign : ℤ) := by
  have hs : (0 : ℚ) < 10 ^ d.scale := by positivity
  obtain h | h | h := lt_trichotomy d.mantissa 0
  · have : d.toRat < 0 := div_neg_of_neg_of_pos (by exact_mod_cast h) hs
    rw [sign_neg this, Int.sign_eq_neg_one_of_neg h]
    rfl
  · rw [toRat, h]
    simp
  · have : 0 < d.toRat := div_pos (by exact_mod_cast h) hs
    rw [sign_pos this, Int.sign_eq_one_of_pos h]
    rfl

/-- The digits beyond `p` that the cut quotient has, one or two. -/
def excess (a b : Decimal) (p : Nat) : Nat := numDigits (cutQuotient a b p).digits - p

def roundedDigits (a b : Decimal) (p : Nat) : Nat :=
  roundHalfEven (cutQuotient a b p).digits (excess a b p) (cutQuotient a b p).inexact

def roundedScale (a b : Decimal) (p : Nat) : ℤ := (cutQuotient a b p).scale - excess a b p

theorem exact_at_roundedScale (a b : Decimal) (p : Nat) :
    |a.toRat / b.toRat| * 10 ^ roundedScale a b p =
      |a.toRat / b.toRat| * 10 ^ (cutQuotient a b p).scale / 10 ^ excess a b p := by
  rw [roundedScale, zpow_sub₀ (by norm_num), zpow_natCast, mul_div_assoc]

theorem inDecade_quotient {a b : Decimal} (ha : a ≠ 0) (hb : b ≠ 0) {p : Nat} (hp : 0 < p) :
    InDecade p (|a.toRat / b.toRat| * 10 ^ roundedScale a b p) := by
  obtain ⟨hle, hlt, -⟩ := cutQuotient_floor (a := a) hb p
  obtain ⟨hmore, -⟩ := numDigits_cutQuotient ha hb p
  have hpow : (0 : ℚ) < 10 ^ excess a b p := by positivity
  have hlen : numDigits (cutQuotient a b p).digits = p + excess a b p := by
    rw [excess]
    omega
  have hpos : 0 < (cutQuotient a b p).digits := by
    by_contra h
    rw [Nat.eq_zero_of_not_pos h, show numDigits 0 = 1 from rfl] at hmore
    omega
  rw [exact_at_roundedScale]
  constructor
  · rw [le_div_iff₀ hpow, ← pow_add]
    have hlow := pow_numDigits_le hpos
    rw [hlen, show p + excess a b p - 1 = p - 1 + excess a b p by omega] at hlow
    exact le_trans (by exact_mod_cast hlow) hle
  · rw [div_lt_iff₀ hpow, ← pow_add, ← hlen]
    have hhigh := lt_pow_numDigits (cutQuotient a b p).digits
    exact hlt.trans_le (by exact_mod_cast hhigh)

theorem nearestEven_quotient {a b : Decimal} (ha : a ≠ 0) (hb : b ≠ 0) (p : Nat) :
    NearestEven (|a.toRat / b.toRat| * 10 ^ roundedScale a b p) (roundedDigits a b p) := by
  obtain ⟨hle, hlt, hflag⟩ := cutQuotient_floor (a := a) hb p
  obtain ⟨hmore, -⟩ := numDigits_cutQuotient ha hb p
  rw [exact_at_roundedScale]
  exact nearestEven_roundHalfEven (by rw [excess]; omega) hle hlt hflag

theorem div_eq {a b : Decimal} (ha : a ≠ 0) (hb : b ≠ 0) (precision : Nat) :
    a.div b precision = ofSignedScale
      (a.mantissa.sign * b.mantissa.sign * roundedDigits a b (max 1 precision))
      (roundedScale a b (max 1 precision)) := by
  rw [div, if_neg (not_or.mpr ⟨ha, hb⟩)]
  rfl

theorem toRat_div {a b : Decimal} (ha : a ≠ 0) (hb : b ≠ 0) (precision : Nat) :
    (a.div b precision).toRat = SignType.sign (a.toRat / b.toRat) *
      roundedDigits a b (max 1 precision) * 10 ^ (-roundedScale a b (max 1 precision)) := by
  have hsign : (SignType.sign (a.toRat / b.toRat) : ℚ) =
      (a.mantissa.sign : ℤ) * (b.mantissa.sign : ℤ) := by
    have hdiv : SignType.sign (a.toRat / b.toRat) =
        SignType.sign a.toRat / SignType.sign b.toRat := map_div₀ signHom ..
    have hmul (s t : SignType) : s / t = s * t := by decide +revert
    rw [hdiv, hmul, SignType.coe_mul, sign_toRat, sign_toRat]
  rw [div_eq ha hb, toRat_ofSignedScale, hsign]
  push_cast
  rfl

theorem pow_le_roundedDigits {a b : Decimal} (ha : a ≠ 0) (hb : b ≠ 0) {p : Nat} (hp : 0 < p) :
    10 ^ (p - 1) ≤ roundedDigits a b p := by
  have hge := ((inDecade_quotient ha hb hp).rounded (nearestEven_quotient ha hb p)).1
  exact_mod_cast hge

theorem roundedDigits_pos {a b : Decimal} (ha : a ≠ 0) (hb : b ≠ 0) {p : Nat} (hp : 0 < p) :
    0 < roundedDigits a b p :=
  (Nat.pow_pos (by norm_num)).trans_le (pow_le_roundedDigits ha hb hp)

theorem sign_cast_ne_zero {v : ℚ} (h : v ≠ 0) : (SignType.sign v : ℚ) ≠ 0 := by
  intro hz
  apply h
  rw [← sign_mul_abs v, hz, zero_mul]

theorem toRat_div_ne_zero {a b : Decimal} (ha : a ≠ 0) (hb : b ≠ 0) : a.toRat / b.toRat ≠ 0 :=
  div_ne_zero (mt toRat_eq_zero.mp ha) (mt toRat_eq_zero.mp hb)

theorem div_ne_zero_of_ne_zero {a b : Decimal} (ha : a ≠ 0) (hb : b ≠ 0) (precision : Nat) :
    a.div b precision ≠ 0 := by
  refine mt toRat_eq_zero.mpr ?_
  rw [toRat_div ha hb]
  have hv := sign_cast_ne_zero (toRat_div_ne_zero ha hb)
  have hr : (roundedDigits a b (max 1 precision) : ℚ) ≠ 0 := by
    exact_mod_cast (roundedDigits_pos ha hb (p := max 1 precision) (by omega)).ne'
  exact mul_ne_zero (mul_ne_zero hv hr) (by positivity)

theorem div_eq_zero_iff {a b : Decimal} (hb : b ≠ 0) (precision : Nat) :
    a.div b precision = 0 ↔ a = 0 := by
  constructor
  · intro h
    by_contra ha
    exact div_ne_zero_of_ne_zero ha hb precision h
  · intro ha
    rw [div, if_pos (.inl ha)]

theorem div_exact_iff {a b : Decimal} (ha : a ≠ 0) (hb : b ≠ 0) (precision : Nat) :
    (a.div b precision).toRat = a.toRat / b.toRat ↔
      FitsDigits (max 1 precision) (a.toRat / b.toRat) := by
  have hp : 0 < max 1 precision := by omega
  have hdecade := inDecade_quotient ha hb hp
  have hnear := nearestEven_quotient ha hb (max 1 precision)
  have hv := toRat_div_ne_zero ha hb
  rw [toRat_div ha hb]
  generalize max 1 precision = p at *
  generalize roundedScale a b p = k at *
  generalize roundedDigits a b p = r at *
  generalize a.toRat / b.toRat = v at *
  have h10 : (10 : ℚ) ^ k ≠ 0 := by positivity
  have hsign : (SignType.sign v : ℚ) * |v| = v := sign_mul_abs v
  constructor
  · intro h
    refine ⟨SignType.sign v * r, -k, ?_, ?_⟩
    · have habs : r * 10 ^ (-k) = |v| := by
        apply mul_left_cancel₀ (sign_cast_ne_zero hv)
        rw [hsign, ← mul_assoc, h]
      have hr : (r : ℚ) < 10 ^ p := by
        have hlt := hdecade.2
        rwa [← habs, mul_assoc, zpow_neg, inv_mul_cancel₀ h10, mul_one] at hlt
      have hle : |(SignType.sign v : ℤ)| ≤ 1 := by cases SignType.sign v <;> decide
      have hr' : r < 10 ^ p := by exact_mod_cast hr
      rw [abs_mul, Nat.abs_cast]
      calc |(SignType.sign v : ℤ)| * r ≤ 1 * r := by gcongr
        _ < 10 ^ p := by rw [one_mul]; exact_mod_cast hr'
    · push_cast [SignType.intCast_cast]
      exact h.symm
  · intro h
    obtain ⟨n, hn⟩ := h.integer hp hdecade
    have hr : (r : ℤ) = n := hnear.unique (hn ▸ NearestEven.intCast n)
    have hcast : (r : ℚ) = |v| * 10 ^ k := by rw [hn, ← hr, Int.cast_natCast]
    rw [hcast, zpow_neg, ← mul_assoc, hsign, mul_assoc, mul_inv_cancel₀ h10, mul_one]

theorem sub_div_mul_eq_zero_iff (a : Decimal) {b : Decimal} (hb : b ≠ 0) (precision : Nat) :
    a - a.div b precision * b = 0 ↔ FitsDigits (max 1 precision) (a.toRat / b.toRat) := by
  have hb' : b.toRat ≠ 0 := mt toRat_eq_zero.mp hb
  rw [← toRat_eq_zero, toRat_sub, toRat_mul]
  by_cases ha : a = 0
  · rw [(div_eq_zero_iff hb precision).mpr ha, ha, toRat_zero, zero_mul, zero_div]
    exact iff_of_true (sub_self 0) (fitsDigits_zero _)
  · rw [← div_exact_iff ha hb precision, eq_div_iff hb', sub_eq_zero, eq_comm]

theorem abs_sign_cast {v : ℚ} (h : v ≠ 0) : |(SignType.sign v : ℚ)| = 1 := by
  cases lt_or_gt_of_ne h with
  | inl hneg => rw [sign_neg hneg]; norm_num
  | inr hpos => rw [sign_pos hpos]; norm_num

theorem abs_toRat_div {a b : Decimal} (ha : a ≠ 0) (hb : b ≠ 0) (precision : Nat) :
    |(a.div b precision).toRat| =
      roundedDigits a b (max 1 precision) * 10 ^ (-roundedScale a b (max 1 precision)) := by
  rw [toRat_div ha hb, abs_mul, abs_mul, abs_sign_cast (toRat_div_ne_zero ha hb), one_mul,
    Nat.abs_cast, abs_of_pos (zpow_pos (by norm_num) _)]

theorem abs_sub_toRat_div_le {a b : Decimal} (ha : a ≠ 0) (hb : b ≠ 0) (precision : Nat) :
    |a.toRat / b.toRat - (a.div b precision).toRat| ≤
      1 / 2 * 10 ^ (-roundedScale a b (max 1 precision)) := by
  have hnear := (nearestEven_quotient ha hb (max 1 precision)).near
  have hv := toRat_div_ne_zero ha hb
  rw [toRat_div ha hb]
  generalize roundedScale a b (max 1 precision) = k at *
  generalize roundedDigits a b (max 1 precision) = r at *
  generalize a.toRat / b.toRat = v at *
  have hunit : (10 : ℚ) ^ k * 10 ^ (-k) = 1 := by
    rw [zpow_neg, mul_inv_cancel₀ (zpow_ne_zero k (by norm_num))]
  have hoff : v - SignType.sign v * r * 10 ^ (-k) =
      SignType.sign v * (|v| * 10 ^ k - (r : ℤ)) * 10 ^ (-k) := by
    have hsign : (SignType.sign v : ℚ) * |v| = v := sign_mul_abs v
    rw [Int.cast_natCast]
    calc v - SignType.sign v * r * 10 ^ (-k)
        = SignType.sign v * |v| * (10 ^ k * 10 ^ (-k)) - SignType.sign v * r * 10 ^ (-k) := by
          rw [hsign, hunit, mul_one]
      _ = SignType.sign v * (|v| * 10 ^ k - r) * 10 ^ (-k) := by ring
  have hpos : (0 : ℚ) < 10 ^ (-k) := zpow_pos (by norm_num) _
  rw [hoff, abs_mul, abs_mul, abs_sign_cast hv, one_mul, abs_of_pos hpos]
  exact mul_le_mul_of_nonneg_right hnear hpos.le

/-- What is left of a dividend after its rounded quotient, against that quotient, whose digits make up
the power of ten. -/
theorem abs_sub_div_mul_le (a : Decimal) {b : Decimal} (hb : b ≠ 0) (precision : Nat) :
    2 * 10 ^ (max 1 precision - 1) * |(a - a.div b precision * b).toRat| ≤
      |b.toRat| * |(a.div b precision).toRat| := by
  have hb' : b.toRat ≠ 0 := mt toRat_eq_zero.mp hb
  by_cases ha : a = 0
  · have hq : a.div b precision = 0 := (div_eq_zero_iff hb precision).mpr ha
    rw [toRat_sub, toRat_mul, hq, ha, toRat_zero]
    simp
  have hlow : (10 : ℚ) ^ (max 1 precision - 1) ≤ roundedDigits a b (max 1 precision) := by
    exact_mod_cast pow_le_roundedDigits ha hb (by omega)
  have hrest : (a - a.div b precision * b).toRat =
      (a.toRat / b.toRat - (a.div b precision).toRat) * b.toRat := by
    rw [toRat_sub, toRat_mul, sub_mul, div_mul_cancel₀ _ hb']
  have hoff := abs_sub_toRat_div_le ha hb precision
  have hunit : (0 : ℚ) < 10 ^ (-roundedScale a b (max 1 precision)) := zpow_pos (by norm_num) _
  rw [hrest, abs_mul, abs_toRat_div ha hb]
  calc 2 * 10 ^ (max 1 precision - 1) *
        (|a.toRat / b.toRat - (a.div b precision).toRat| * |b.toRat|)
      ≤ 2 * roundedDigits a b (max 1 precision) *
        (1 / 2 * 10 ^ (-roundedScale a b (max 1 precision)) * |b.toRat|) := by gcongr
    _ = |b.toRat| * (roundedDigits a b (max 1 precision) *
        10 ^ (-roundedScale a b (max 1 precision))) := by ring

theorem fitsDigits_div (a : Decimal) {b : Decimal} (hb : b ≠ 0) (precision : Nat) :
    FitsDigits (max 1 precision) (a.div b precision).toRat := by
  by_cases ha : a = 0
  · rw [(div_eq_zero_iff hb precision).mpr ha, toRat_zero]
    exact fitsDigits_zero _
  have hp : 0 < max 1 precision := by omega
  have hrounded := ((inDecade_quotient ha hb hp).rounded (nearestEven_quotient ha hb _)).2
  have hsign : |(SignType.sign (a.toRat / b.toRat) : ℤ)| ≤ 1 := by
    cases SignType.sign (a.toRat / b.toRat) <;> decide
  rw [toRat_div ha hb, ← SignType.intCast_cast]
  exact fitsDigits_of_le hp hsign (by exact_mod_cast hrounded)

/-- Division rounds the exact quotient correctly: of the numbers with the asked number of digits it
gives the nearest, a tie goes to the even last digit, and what fits is left as it is. -/
theorem quotient_correctly_rounded (a b : Decimal) (precision : Nat) :
    (a.div? b precision = none ↔ b = 0) ∧
    (b ≠ 0 → a = 0 → a.div? b precision = some 0) ∧
    (b ≠ 0 → a ≠ 0 →
      let p := max precision 1
      let v := a.toRat / b.toRat
      ∃ (k R : ℤ) (d : Decimal), (∀ j : ℤ, InDecade p (|v| * 10 ^ j) ↔ j = k) ∧
        NearestEven (|v| * 10 ^ k) R ∧ a.div? b precision = some d ∧
        (∀ e : Decimal, e = d ↔ e.toRat = SignType.sign v * R * 10 ^ (-k)) ∧
        (d.toRat = v ↔ FitsDigits p v) ∧ d ≠ 0) := by
  refine ⟨?_, ?_, ?_⟩
  · rw [div?]
    split <;> simp_all
  · intro hb ha
    rw [div?, if_neg hb, div, if_pos (.inl ha)]
  · intro hb ha p v
    have hp : 0 < max 1 precision := by omega
    have hmax : p = max 1 precision := Nat.max_comm ..
    have hdecade := inDecade_quotient ha hb hp
    rw [hmax]
    refine ⟨roundedScale a b (max 1 precision), roundedDigits a b (max 1 precision),
      a.div b precision, ?_, nearestEven_quotient ha hb _, if_neg hb, ?_,
      div_exact_iff ha hb precision, div_ne_zero_of_ne_zero ha hb precision⟩
    · intro j
      constructor
      · intro hj
        exact hj.exponent_unique hp hdecade
      · rintro rfl
        exact hdecade
    · intro e
      rw [Int.cast_natCast, ← toRat_div ha hb]
      exact ⟨fun h => h ▸ rfl, toRat_injective⟩

/-- Two thirds of minus one to four digits: the quotient is rounded away from zero in its last. -/
theorem quotient_correctly_rounded_two_thirds :
    ofInt 3 ≠ 0 ∧ ofInt (-2) ≠ 0 ∧ (ofInt (-2)).div? (ofInt 3) 4 = some (ofScaled (-6667) 4) ∧
    ∃ (k R : ℤ) (d : Decimal),
      (∀ j : ℤ, InDecade 4 (|(ofInt (-2)).toRat / (ofInt 3).toRat| * 10 ^ j) ↔ j = k) ∧
      NearestEven (|(ofInt (-2)).toRat / (ofInt 3).toRat| * 10 ^ k) R ∧
      (ofInt (-2)).div? (ofInt 3) 4 = some d ∧
      (∀ e : Decimal, e = d ↔ e.toRat =
        SignType.sign ((ofInt (-2)).toRat / (ofInt 3).toRat) * R * 10 ^ (-k)) ∧
      (d.toRat = (ofInt (-2)).toRat / (ofInt 3).toRat ↔
        FitsDigits 4 ((ofInt (-2)).toRat / (ofInt 3).toRat)) ∧ d ≠ 0 :=
  ⟨by decide, by decide, by decide +kernel,
    (quotient_correctly_rounded (ofInt (-2)) (ofInt 3) 4).2.2 (by decide) (by decide)⟩

end DecimalPoly.Decimal
