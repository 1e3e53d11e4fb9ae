import DecimalPoly.Proofs.Decimal.Order
import DecimalPoly.Proofs.Decimal.Quotient

/-! Rounded division as a function of the exact quotient. Rounding to a number of digits keeps the
order, also where the scale of the digits changes, since it never leaves the closed decade of a number;
it commutes with a change of sign and leaves what fits as it is. Division inherits all of this. -/
namespace DecimalPoly.Decimal

/-- Rounding keeps the order: where the results are not in order, both numbers lie halfway. -/
theorem NearestEven.mono {x y : ℚ} {m n : ℤ} (hm : NearestEven x m) (hn : NearestEven y n)
    (h : x ≤ y) : m ≤ n := by
  by_contra hlt
  have hstep : (n : ℚ) + 1 ≤ m := by exact_mod_cast Int.lt_of_not_ge hlt
  have hm' := abs_le.mp hm.near
  have hn' := abs_le.mp hn.near
  obtain rfl : x = y := by linarith
  exact hlt (hm.unique hn).le

/-- `w` is `v` to `p` digits. The scale `k` is that at which `v` has `p` digits before the point. -/
inductive RoundsDigits (p : ℕ) : ℚ → ℚ → Prop
  | zero : RoundsDigits p 0 0
  | scaled {v : ℚ} {k r : ℤ} (hdecade : InDecade p (|v| * 10 ^ k))
      (hnear : NearestEven (|v| * 10 ^ k) r) :
      RoundsDigits p v (SignType.sign v * r * 10 ^ (-k))

namespace RoundsDigits
variable {p : ℕ} {v w v' w' : ℚ}

theorem neg (h : RoundsDigits p v w) : RoundsDigits p (-v) (-w) := by
  cases h with
  | zero =>
    rw [neg_zero]
    exact .zero
  | scaled hdecade hnear =>
    rw [← abs_neg] at hdecade hnear
    have h := RoundsDigits.scaled hdecade hnear
    rwa [Left.sign_neg, SignType.coe_neg, neg_mul, neg_mul] at h

theorem nonneg (h : RoundsDigits p v w) (hv : 0 ≤ v) : 0 ≤ w := by
  cases h with
  | zero => exact le_rfl
  | @scaled _ k r hdecade hnear =>
    have hr : (0 : ℚ) < r := by
      exact_mod_cast (pow_pos (by norm_num) _).trans_le (hdecade.rounded hnear).1
    have hne : v ≠ 0 := by
      rintro rfl
      simpa using hdecade.pos
    rw [sign_pos (hv.lt_of_ne' hne), SignType.coe_one, one_mul]
    positivity

theorem mono_of_pos (hp : 0 < p) (h : RoundsDigits p v w) (h' : RoundsDigits p v' w') (hv : 0 < v)
    (hle : v ≤ v') : w ≤ w' := by
  cases h with
  | zero => exact absurd hv (lt_irrefl 0)
  | @scaled _ k r hdecade hnear =>
    cases h' with
    | zero => exact absurd hv hle.not_gt
    | @scaled _ k' r' hdecade' hnear' =>
      have hr : (r : ℚ) ≤ 10 ^ p := by exact_mod_cast (hdecade.rounded hnear).2
      have hr' : (10 : ℚ) ^ (p - 1) ≤ r' := by exact_mod_cast (hdecade'.rounded hnear').1
      rw [sign_pos hv, sign_pos (hv.trans_le hle), SignType.coe_one, one_mul, one_mul]
      rw [abs_of_pos hv] at hdecade hnear
      rw [abs_of_pos (hv.trans_le hle)] at hdecade' hnear'
      have hk : k' ≤ k := hdecade.exponent_le hp hle hdecade'
      cases hk.eq_or_lt with
      | inl heq =>
        subst heq
        have hrr : r ≤ r' := hnear.mono hnear' (by gcongr)
        have : (r : ℚ) ≤ r' := by exact_mod_cast hrr
        gcongr
      | inr hlt =>
        -- the decade above starts where this one ends, also after rounding
        calc (r : ℚ) * 10 ^ (-k) ≤ 10 ^ p * 10 ^ (-k) := by gcongr
          _ = 10 ^ ((p : ℤ) - k) := by rw [← zpow_natCast, ← zpow_add₀ (by norm_num), sub_eq_add_neg]
          _ ≤ 10 ^ (((p - 1 : ℕ) : ℤ) - k') := zpow_le_zpow_right₀ (by norm_num) (by omega)
          _ = 10 ^ (p - 1) * 10 ^ (-k') := by
            rw [← zpow_natCast, ← zpow_add₀ (by norm_num), sub_eq_add_neg]
          _ ≤ r' * 10 ^ (-k') := by gcongr

theorem mono (hp : 0 < p) (h : RoundsDigits p v w) (h' : RoundsDigits p v' w') (hle : v ≤ v') :
    w ≤ w' := by
  by_cases hv : 0 < v
  · exact mono_of_pos hp h h' hv hle
  by_cases hv' : v' < 0
  · exact neg_le_neg_iff.mp (mono_of_pos hp h'.neg h.neg (by linarith) (by linarith))
  · have hw := h.neg.nonneg (by linarith)
    have hw' := h'.nonneg (by linarith)
    linarith

theorem unique (hp : 0 < p) (h : RoundsDigits p v w) (h' : RoundsDigits p v w') : w = w' :=
  le_antisymm (mono hp h h' le_rfl) (mono hp h' h le_rfl)

end RoundsDigits

section Division
variable {a a' b b' : Decimal} (precision : ℕ)

theorem roundsDigits_div (a : Decimal) (hb : b ≠ 0) :
    RoundsDigits (max 1 precision) (a.toRat / b.toRat) (a.div b precision).toRat := by
  by_cases ha : a = 0
  · rw [(div_eq_zero_iff hb precision).mpr ha, ha, toRat_zero, zero_div]
    exact .zero
  · rw [toRat_div ha hb, ← Int.cast_natCast]
    exact .scaled (inDecade_quotient ha hb (by omega)) (nearestEven_quotient ha hb _)

theorem div_le_div_of_toRat_le (hb : b ≠ 0) (hb' : b' ≠ 0)
    (h : a.toRat / b.toRat ≤ a'.toRat / b'.toRat) :
    a.div b precision ≤ a'.div b' precision :=
  le_iff.mpr ((roundsDigits_div precision a hb).mono (by omega) (roundsDigits_div precision a' hb') h)

theorem div_eq_neg_div (hb : b ≠ 0) (hb' : b' ≠ 0)
    (h : a'.toRat / b'.toRat = -(a.toRat / b.toRat)) :
    a'.div b' precision = -a.div b precision := by
  apply toRat_injective
  rw [toRat_neg]
  have h' := roundsDigits_div precision a' hb'
  rw [h] at h'
  exact h'.unique (by omega) (roundsDigits_div precision a hb).neg

theorem div_mul_self_eq_iff (a : Decimal) (hb : b ≠ 0) :
    (a * b).div b precision = a ↔ FitsDigits (max 1 precision) a.toRat := by
  have hquotient : (a * b).toRat / b.toRat = a.toRat := by
    rw [toRat_mul, mul_div_cancel_right₀ _ (mt toRat_eq_zero.mp hb)]
  by_cases ha : a = 0
  · subst ha
    rw [zero_mul, (div_eq_zero_iff hb precision).mpr rfl, toRat_zero]
    exact iff_of_true rfl (fitsDigits_zero _)
  · have h := div_exact_iff (mul_ne_zero ha hb) hb precision
    rwa [hquotient, toRat_inj] at h

theorem div_div_one (a : Decimal) (hb : b ≠ 0) :
    (a.div b precision).div 1 precision = a.div b precision := by
  have h := (div_mul_self_eq_iff precision (a.div b precision) one_ne_zero).mpr
    (fitsDigits_div a hb precision)
  rwa [mul_one] at h

end Division

/-- Division to a number of digits keeps the order of its dividends and turns that of its divisors
round, commutes with changes of sign, rounds no quotient twice, and takes back a product if the other
factor has no more digits than are kept. -/
theorem div_algebra (precision : ℕ) :
    (∀ a b : Decimal, b ≠ 0 → a.div? b precision = some (a.div b precision)) ∧
    (∀ a a' b : Decimal, a ≤ a' → 0 < b → a.div b precision ≤ a'.div b precision) ∧
    (∀ a b b' : Decimal, 0 ≤ a → 0 < b → b ≤ b' → a.div b' precision ≤ a.div b precision) ∧
    (∀ a b : Decimal, b ≠ 0 → (-a).div b precision = -a.div b precision ∧
      a.div (-b) precision = -a.div b precision) ∧
    (∀ a b : Decimal, b ≠ 0 →
      (a.div b precision).div 1 precision = a.div b precision) ∧
    ∀ a b : Decimal, b ≠ 0 →
      ((a * b).div b precision = a ↔ FitsDigits (max 1 precision) a.toRat) := by
  refine ⟨fun a b hb => if_neg hb, fun a a' b ha hb => ?_, fun a b b' ha hb hle => ?_,
    fun a b hb => ⟨?_, ?_⟩, fun a b => div_div_one precision a,
    fun a b => div_mul_self_eq_iff precision a⟩
  · have hb' := toRat_pos.mpr hb
    have ha' := le_iff.mp ha
    refine div_le_div_of_toRat_le precision hb.ne' hb.ne' ?_
    gcongr
  · have hb' := toRat_pos.mpr hb
    have ha' := toRat_nonneg.mpr ha
    have hle' := le_iff.mp hle
    refine div_le_div_of_toRat_le precision (hb.trans_le hle).ne' hb.ne' ?_
    gcongr
  · exact div_eq_neg_div precision hb hb (by rw [toRat_neg, neg_div])
  · exact div_eq_neg_div precision hb (neg_ne_zero.mpr hb) (by rw [toRat_neg, div_neg])

/-- Two quotients on either side of ten that three digits do not tell apart, as the lower one is
carried up into the next decade. -/
theorem div_algebra_across_ten :
    let a := ofScaled 29985 3
    let a' := ofScaled 3012 2
    let b := ofInt 3
    let b' := ofInt 7
    (a ≤ a' ∧ 0 < b ∧ a.div b 3 = ofInt 10 ∧ a'.div b 3 = ofInt 10 ∧ a.div b 3 ≤ a'.div b 3) ∧
      (0 ≤ a ∧ b ≤ b' ∧ a.div b' 3 = ofScaled 428 2 ∧ a.div b' 3 ≤ a.div b 3) ∧
      (b ≠ 0 ∧ a.div? b 3 = some (ofInt 10) ∧ (-a).div b 3 = -a.div b 3 ∧
        (a.div b' 3).div 1 3 = a.div b' 3) ∧
      (a' * b).div b 4 = a' ∧ FitsDigits 4 a'.toRat ∧
      (a * b).div b 4 ≠ a ∧ ¬FitsDigits 4 a.toRat := by
  intro a a' b b'
  have ha : a ≤ a' := by decide
  have ha0 : 0 ≤ a := by decide
  have hb : 0 < b := by decide
  have hbb' : b ≤ b' := by decide
  have hne : b ≠ 0 := by decide
  have hlow : a.div b 3 = ofInt 10 := by decide +kernel
  have hhigh : a'.div b 3 = ofInt 10 := by decide +kernel
  have hless : a.div b' 3 = ofScaled 428 2 := by decide +kernel
  have hback : (a' * b).div b 4 = a' := by decide +kernel
  have hlost : (a * b).div b 4 ≠ a := by decide +kernel
  obtain ⟨hsome, hmono, hanti, hneg, hagain, -⟩ := div_algebra 3
  obtain ⟨-, -, -, -, -, hiff⟩ := div_algebra 4
  refine ⟨⟨ha, hb, hlow, hhigh, hmono a a' b ha hb⟩, ⟨ha0, hbb', hless, hanti a b b' ha0 hb hbb'⟩,
    ⟨hne, ?_, (hneg a b hne).1, hagain a b' (by decide)⟩, hback, (hiff a' b hne).mp hback, hlost,
    mt (hiff a b hne).mpr hlost⟩
  rw [hsome a b hne, hlow]

end DecimalPoly.Decimal
