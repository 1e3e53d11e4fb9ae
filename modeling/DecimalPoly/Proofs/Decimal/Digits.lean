import DecimalPoly.Proofs.Decimal.Rounding

/-! Numbers of decimal digits, and the decade that a rational is scaled into so that it shows a
given number of digits before the point. -/
namespace DecimalPoly.Decimal

theorem lt_pow_numDigits (n : Nat) : n < 10 ^ numDigits n :=
  (Nat.length_toDigits_le_iff (by decide) Nat.length_toDigits_pos).mp le_rfl

theorem numDigits_pos (n : Nat) : 0 < numDigits n := Nat.length_toDigits_pos

theorem pow_numDigits_le {n : Nat} (h : 0 < n) : 10 ^ (numDigits n - 1) ≤ n := by
  by_contra hlt
  push Not at hlt
  have hpos := numDigits_pos n
  cases Nat.eq_zero_or_pos (numDigits n - 1) with
  | inl hone =>
    rw [hone, pow_zero] at hlt
    omega
  | inr hmore =>
    have : numDigits n ≤ numDigits n - 1 :=
      (Nat.length_toDigits_le_iff (by decide) hmore).mpr hlt
    omega

theorem numDigits_le_iff {n k : Nat} (hk : 0 < k) : numDigits n ≤ k ↔ n < 10 ^ k :=
  Nat.length_toDigits_le_iff (by decide) hk

theorem lt_numDigits_iff {n k : Nat} (hk : 0 < k) : k < numDigits n ↔ 10 ^ k ≤ n := by
  rw [← not_le, numDigits_le_iff hk, not_lt]

theorem pow_numDigits_le_cast {n : Nat} (h : 0 < n) :
    (10 : ℚ) ^ ((numDigits n : ℤ) - 1) ≤ n := by
  have hpos := numDigits_pos n
  rw [show (numDigits n : ℤ) - 1 = ((numDigits n - 1 : ℕ) : ℤ) by omega, zpow_natCast]
  exact_mod_cast pow_numDigits_le h

theorem lt_pow_numDigits_cast (n : Nat) : (n : ℚ) < 10 ^ (numDigits n : ℤ) := by
  rw [zpow_natCast]
  exact_mod_cast lt_pow_numDigits n

theorem ratio_bounds {m n : Nat} (hm : 0 < m) (hn : 0 < n) :
    (10 : ℚ) ^ ((numDigits m : ℤ) - numDigits n - 1) < m / n ∧
      (m / n : ℚ) < 10 ^ ((numDigits m : ℤ) - numDigits n + 1) := by
  have h10 : (10 : ℚ) ≠ 0 := by norm_num
  have hn' : (0 : ℚ) < n := by exact_mod_cast hn
  constructor
  · rw [lt_div_iff₀ hn']
    calc (10 : ℚ) ^ ((numDigits m : ℤ) - numDigits n - 1) * n
        < 10 ^ ((numDigits m : ℤ) - numDigits n - 1) * 10 ^ (numDigits n : ℤ) := by
          gcongr
          exact lt_pow_numDigits_cast n
      _ = 10 ^ ((numDigits m : ℤ) - 1) := by
          rw [← zpow_add₀ h10]
          congr 1
          ring
      _ ≤ m := pow_numDigits_le_cast hm
  · rw [div_lt_iff₀ hn']
    calc (m : ℚ) < 10 ^ (numDigits m : ℤ) := lt_pow_numDigits_cast m
      _ = 10 ^ ((numDigits m : ℤ) - numDigits n + 1) * 10 ^ ((numDigits n : ℤ) - 1) := by
          rw [← zpow_add₀ h10]
          congr 1
          ring
      _ ≤ 10 ^ ((numDigits m : ℤ) - numDigits n + 1) * n := by
          gcongr
          exact pow_numDigits_le_cast hn

theorem ten_zpow_eq (s : ℤ) : (10 : ℚ) ^ s = 10 ^ s.toNat / 10 ^ (-s).toNat := by
  rw [← zpow_natCast, ← zpow_natCast, ← zpow_sub₀ (by norm_num)]
  congr 1
  omega

/-- `x` has `p` digits before the point. -/
def InDecade (p : Nat) (x : ℚ) : Prop := 10 ^ (p - 1) ≤ x ∧ x < 10 ^ p

theorem InDecade.pos {p : Nat} {x : ℚ} (h : InDecade p x) : 0 < x :=
  lt_of_lt_of_le (by positivity) h.1

theorem InDecade.rounded {p : Nat} {x : ℚ} {r : ℤ} (h : InDecade p x) (hr : NearestEven x r) :
    10 ^ (p - 1) ≤ r ∧ r ≤ 10 ^ p :=
  hr.between (by exact_mod_cast h.1) (by exact_mod_cast h.2.le)

theorem InDecade.exponent_le {p : Nat} (hp : 0 < p) {v v' : ℚ} {j k : ℤ} (hle : v ≤ v')
    (hj : InDecade p (v * 10 ^ j)) (hk : InDecade p (v' * 10 ^ k)) : k ≤ j := by
  have h10 : (10 : ℚ) ≠ 0 := by norm_num
  by_contra hlt
  push Not at hlt
  have hstep : v' * 10 ^ k = v' * 10 ^ j * 10 ^ (k - j) := by
    rw [mul_assoc, ← zpow_add₀ h10, add_sub_cancel]
  have hten : (10 : ℚ) ≤ 10 ^ (k - j) := by
    calc (10 : ℚ) = 10 ^ (1 : ℤ) := (zpow_one _).symm
      _ ≤ 10 ^ (k - j) := zpow_le_zpow_right₀ (by norm_num) (by omega)
  have hgap : (10 : ℚ) ^ p = 10 ^ (p - 1) * 10 := by
    rw [← pow_succ, Nat.sub_add_cancel hp]
  have hgrow : v * 10 ^ j ≤ v' * 10 ^ j := by gcongr
  have : v' * 10 ^ j * 10 ≤ v' * 10 ^ j * 10 ^ (k - j) := by
    have := hj.pos.trans_le hgrow
    gcongr
  linarith [hj.1, hk.2]

theorem InDecade.exponent_unique {p : Nat} (hp : 0 < p) {v : ℚ} {j k : ℤ}
    (hj : InDecade p (v * 10 ^ j)) (hk : InDecade p (v * 10 ^ k)) : j = k :=
  le_antisymm (hk.exponent_le hp le_rfl hj) (hj.exponent_le hp le_rfl hk)

/-- A number written with at most `p` digits, up to a power of ten. -/
def FitsDigits (p : Nat) (v : ℚ) : Prop := ∃ n j : ℤ, |n| < 10 ^ p ∧ v = n * 10 ^ j

theorem fitsDigits_zero (p : Nat) : FitsDigits p 0 := ⟨0, 0, by positivity, by simp⟩

theorem FitsDigits.mono {p p' : Nat} {v : ℚ} (h : FitsDigits p v) (hle : p ≤ p') :
    FitsDigits p' v := by
  obtain ⟨n, j, hn, hv⟩ := h
  exact ⟨n, j, hn.trans_le (pow_le_pow_right₀ (by norm_num) hle), hv⟩

/-- The first number with too many digits is a power of ten and needs one digit. -/
theorem fitsDigits_of_le {p : Nat} (hp : 0 < p) {s j : ℤ} {n : Nat} (hs : |s| ≤ 1)
    (hn : n ≤ 10 ^ p) : FitsDigits p (s * n * 10 ^ j) := by
  have hone : (1 : ℤ) < 10 ^ p := one_lt_pow₀ (by norm_num) hp.ne'
  cases hn.lt_or_eq with
  | inl hlt =>
    refine ⟨s * n, j, ?_, by push_cast; rfl⟩
    have hn' : (n : ℤ) < 10 ^ p := by exact_mod_cast hlt
    rw [abs_mul, Nat.abs_cast]
    calc |s| * n ≤ 1 * n := by gcongr
      _ < 10 ^ p := by rwa [one_mul]
  | inr heq =>
    refine ⟨s, p + j, hs.trans_lt hone, ?_⟩
    rw [heq, zpow_add₀ (by norm_num), zpow_natCast, mul_assoc]
    push_cast
    rfl

theorem shift_nonneg {p : Nat} (hp : 0 < p) {x : ℚ} {s : ℤ} (hx : 0 ≤ x) (hlt : x < 10 ^ p)
    (hle : 10 ^ (p - 1) ≤ x * 10 ^ s) : 0 ≤ s := by
  by_contra hneg
  push Not at hneg
  have hsmall : (10 : ℚ) ^ s ≤ 10 ^ (-1 : ℤ) := zpow_le_zpow_right₀ (by norm_num) (by omega)
  have htenth : x * 10 ^ s ≤ x * 10 ^ (-1 : ℤ) := by gcongr
  rw [zpow_neg_one, ← div_eq_mul_inv] at htenth
  have hgap : (10 : ℚ) ^ p = 10 ^ (p - 1) * 10 := by
    rw [← pow_succ, Nat.sub_add_cancel hp]
  linarith

theorem FitsDigits.integer {p : Nat} (hp : 0 < p) {v : ℚ} {k : ℤ} (h : FitsDigits p v)
    (hk : InDecade p (|v| * 10 ^ k)) : ∃ n : ℤ, |v| * 10 ^ k = n := by
  obtain ⟨n, j, hn, rfl⟩ := h
  have h10 : (0 : ℚ) < 10 := by norm_num
  have hv : |(n : ℚ) * 10 ^ j| * 10 ^ k = |(n : ℚ)| * 10 ^ (j + k) := by
    rw [abs_mul, abs_of_pos (zpow_pos h10 j), mul_assoc, ← zpow_add₀ h10.ne']
  have hjk : 0 ≤ j + k :=
    shift_nonneg hp (abs_nonneg (n : ℚ)) (by exact_mod_cast hn) (hv ▸ hk.1)
  refine ⟨|n| * 10 ^ (j + k).toNat, ?_⟩
  rw [hv]
  conv_lhs => rw [← Int.toNat_of_nonneg hjk, zpow_natCast]
  push_cast
  rfl

end DecimalPoly.Decimal
