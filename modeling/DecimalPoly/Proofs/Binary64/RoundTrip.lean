import DecimalPoly.Proofs.Binary64.Search

/-! The decimal of a double. The magnitudes of double precision are a ladder of rationals, and a number
rounds to the rung it is nearest to, from the middle of two rungs to the even one. Of the numbers that
round to its rung a double means one with the fewest digits, and of these the nearest. -/
namespace DecimalPoly.Binary64
open Decimal

def word (x : Binary64) : ℕ := x.bits.toNat % 0x8000000000000000

def IsFinite (x : Binary64) : Prop := x.exponentField ≠ 0x7ff

instance : DecidablePred IsFinite := fun x => inferInstanceAs (Decidable (x.exponentField ≠ 0x7ff))

/-- Words below the first binade step as it does. -/
def binade (w : ℕ) : ℕ := max (w / 2 ^ 52) 1

def rungExponent (w : ℕ) : ℤ := binade w - 1075

def rungSignificand (w : ℕ) : ℕ := w - (binade w - 1) * 2 ^ 52

/-- The magnitudes in their order. Behind the last finite one stands `2 ^ 1024`. -/
def rung (w : ℕ) : ℚ := rungSignificand w * 2 ^ rungExponent w

/-- A number without a sign is between the middles next to the rung, or on one if the rung is even. -/
structure RoundsTo (w : ℕ) (v : ℚ) : Prop where
  low : (rung (w - 1) + rung w) / 2 ≤ v
  high : v ≤ (rung w + rung (w + 1)) / 2
  odd : w % 2 = 1 → (rung (w - 1) + rung w) / 2 < v ∧ v < (rung w + rung (w + 1)) / 2

def Means (x : Binary64) (v : ℚ) : Prop :=
  x.IsFinite ∧ ∃ u, IsShortest (RoundsTo x.word) (rung x.word) u ∧
    v = if x.isNegative then -u else u

section Ladder
variable {w : ℕ}

theorem rung_succ (w : ℕ) : rung (w + 1) = rung w + 2 ^ rungExponent w := by
  have h2 : (2 : ℚ) ≠ 0 := two_ne_zero
  by_cases hsame : binade (w + 1) = binade w
  · have hnext : rungSignificand (w + 1) = rungSignificand w + 1 := by
      simp only [rungSignificand, hsame]
      rw [binade]
      omega
    rw [rung, rung, rungExponent, rungExponent, hsame, hnext]
    push_cast
    ring
  · -- the last significand of a binade is followed by the first of the next
    have hlast : binade (w + 1) = binade w + 1 ∧ rungSignificand w + 1 = 2 ^ 53 ∧
        rungSignificand (w + 1) = 2 ^ 52 := by
      simp only [rungSignificand, binade] at *
      omega
    have hcast : (rungSignificand w : ℚ) = 2 ^ 53 - 1 := by
      rw [eq_sub_iff_add_eq]
      exact_mod_cast hlast.2.1
    have hexponent : rungExponent (w + 1) = rungExponent w + 1 := by
      rw [rungExponent, rungExponent, hlast.1]
      push_cast
      ring
    rw [rung, rung, hexponent, hlast.2.2, hcast, zpow_add_one₀ h2]
    push_cast
    ring

theorem rungExponent_pred (h : 0 < w) : rungExponent (w - 1) =
    if w % 2 ^ 52 = 0 ∧ 2 ^ 53 ≤ w then rungExponent w - 1 else rungExponent w := by
  simp only [rungExponent, binade]
  split <;> omega

theorem upper_middle (w : ℕ) :
    (rung w + rung (w + 1)) / 2 = (4 * rungSignificand w + 2) * 2 ^ (rungExponent w - 2) := by
  rw [rung_succ, rung, zpow_sub₀ two_ne_zero]
  ring

theorem lower_middle (h : 0 < w) : (rung (w - 1) + rung w) / 2 =
    (4 * rungSignificand w - if w % 2 ^ 52 = 0 ∧ 2 ^ 53 ≤ w then 1 else 2) *
      2 ^ (rungExponent w - 2) := by
  have hstep := rung_succ (w - 1)
  rw [Nat.sub_add_cancel h, rungExponent_pred h] at hstep
  rw [eq_sub_of_add_eq hstep.symm, rung, zpow_sub₀ two_ne_zero]
  split
  · rw [zpow_sub₀ two_ne_zero]
    ring
  · ring

end Ladder

section Around
variable {m : ℕ} {e : ℤ} {narrow : Bool} {v : ℚ}

theorem two_pow_toNat (e : ℤ) : (2 : ℚ) ^ (e - 2).toNat = 2 ^ (e - 2) * 2 ^ (2 - e).toNat := by
  rw [← zpow_natCast, ← zpow_natCast, ← zpow_add₀ two_ne_zero]
  congr 1
  omega

theorem mem_around (hm : 0 < m) : (Interval.around m e narrow).Mem v ↔
    if m % 2 = 0 then (4 * m - if narrow then 1 else 2) * 2 ^ (e - 2) ≤ v ∧
      v ≤ (4 * m + 2) * 2 ^ (e - 2)
    else (4 * m - if narrow then 1 else 2) * 2 ^ (e - 2) < v ∧ v < (4 * m + 2) * 2 ^ (e - 2) := by
  have hunit : (0 : ℚ) < 2 ^ (2 - e).toNat := by positivity
  have hlow : ((4 * m - if narrow then 1 else 2 : ℕ) : ℚ) = 4 * m - if narrow then 1 else 2 := by
    have hle : (if narrow then 1 else 2) ≤ 4 * m := by split <;> omega
    rw [Nat.cast_sub hle]
    push_cast
    rfl
  rw [Interval.Mem]
  simp only [Interval.around, decide_eq_true_eq, Nat.pow_eq]
  push_cast [hlow, two_pow_toNat]
  simp only [← mul_assoc, mul_le_mul_iff_left₀ hunit, mul_lt_mul_iff_left₀ hunit]

theorem middle_around (m : ℕ) (e : ℤ) (narrow : Bool) :
    (Interval.around m e narrow).middle = m * 2 ^ e := by
  have hunit : (2 : ℚ) ^ (2 - e).toNat ≠ 0 := by positivity
  rw [Interval.middle]
  simp only [Interval.around, Nat.pow_eq]
  push_cast [two_pow_toNat]
  rw [← mul_assoc, mul_div_cancel_right₀ _ hunit, zpow_sub₀ two_ne_zero]
  ring

theorem proper_around (hm : 0 < m) (hlt : m < 2 ^ 53) (hnarrow : narrow = true → m = 2 ^ 52) :
    (Interval.around m e narrow).Proper := by
  have hup : 0 < 2 ^ (e - 2).toNat := Nat.two_pow_pos _
  constructor
  case unit_pos => exact Nat.two_pow_pos _
  case low_pos => exact Nat.mul_pos (by split <;> omega) hup
  case low_lt => exact Nat.mul_lt_mul_of_pos_right (by split <;> omega) hup
  case lt_high => exact Nat.mul_lt_mul_of_pos_right (by omega) hup
  case wide =>
    change 4 * m * _ < ((4 * m + 2) * _ - (4 * m - _) * _) * _
    rw [← Nat.sub_mul, Nat.mul_right_comm (_ - _)]
    refine Nat.mul_lt_mul_of_pos_right ?_ hup
    cases narrow with
    | false =>
      simp only [Bool.false_eq_true, if_false]
      omega
    | true =>
      have := hnarrow rfl
      simp only [if_true]
      omega

end Around

section Decimals
variable {x : Binary64} {w : ℕ} {v : ℚ} {d : Decimal}

theorem word_fields (x : Binary64) :
    x.exponentField = x.word / 2 ^ 52 ∧ x.fractionField = x.word % 2 ^ 52 := by
  rw [exponentField, fractionField, word]
  omega

theorem magnitude_of_isFinite (h : x.IsFinite) : x.magnitude = .finite (rungSignificand x.word)
    (rungExponent x.word) (x.word % 2 ^ 52 = 0 ∧ 2 ^ 53 ≤ x.word) := by
  obtain ⟨hexponent, hfraction⟩ := x.word_fields
  rw [IsFinite, hexponent] at h
  rw [magnitude]
  simp only [hexponent, hfraction, if_neg h, rungSignificand, rungExponent, binade]
  split
  · next hzero =>
    congr 1
    · omega
    · omega
    · rw [eq_comm, decide_eq_false_iff_not]
      omega
  · next hpos =>
    congr 1
    · omega
    · omega
    · rw [decide_eq_decide]
      omega

theorem toDecimal?_eq_none (h : ¬x.IsFinite) : x.toDecimal? = none := by
  rw [toDecimal?, magnitude]
  simp only [if_pos (not_not.mp h)]
  by_cases hf : x.fractionField = 0
  · rw [if_pos hf]
  · rw [if_neg hf]

theorem rungSignificand_bounds (w : ℕ) : rungSignificand w < 2 ^ 53 ∧
    (0 < w → 0 < rungSignificand w) ∧ rungSignificand w % 2 = w % 2 := by
  rw [rungSignificand, binade]
  omega

def interval (w : ℕ) : Interval :=
  .around (rungSignificand w) (rungExponent w) (w % 2 ^ 52 = 0 ∧ 2 ^ 53 ≤ w)

theorem middle_interval (w : ℕ) : (interval w).middle = rung w := middle_around ..

theorem proper_interval (h : 0 < w) : (interval w).Proper := by
  obtain ⟨hlt, hpos, -⟩ := rungSignificand_bounds w
  refine proper_around (hpos h) hlt fun hnarrow => ?_
  have hfirst := of_decide_eq_true hnarrow
  rw [rungSignificand, binade]
  omega

theorem roundsTo_iff (h : 0 < w) : RoundsTo w v ↔ (interval w).Mem v := by
  obtain ⟨-, hpos, hparity⟩ := rungSignificand_bounds w
  rw [interval, mem_around (hpos h), hparity]
  simp only [decide_eq_true_eq, ← lower_middle h, ← upper_middle]
  split
  · next heven =>
    constructor
    · intro hr
      exact ⟨hr.low, hr.high⟩
    · intro hm
      exact ⟨hm.1, hm.2, fun hodd => by omega⟩
  · next hodd =>
    constructor
    · intro hr
      exact hr.odd (by omega)
    · intro hm
      exact ⟨hm.1.le, hm.2.le, fun _ => hm⟩

theorem isShortest_zero : IsShortest (RoundsTo 0) (rung 0) 0 := by
  have hzero : rung 0 = 0 := by
    rw [rung, rungSignificand, Nat.zero_sub, Nat.cast_zero, zero_mul]
  constructor
  case admitted =>
    constructor
    case low => rw [hzero, add_zero, zero_div]
    case high =>
      rw [rung_succ, hzero]
      positivity
    case odd => exact fun h => absurd h (by decide)
  case fewest => exact fun u _ k _ => fitsDigits_zero k
  case preferred =>
    intro u _ hfits
    rw [eq_zero_of_fitsDigits (hfits 0 (fitsDigits_zero 0))]
    exact .inr ⟨rfl, le_rfl⟩

theorem exists_toDecimal? (h : x.IsFinite) : ∃ d, x.toDecimal? = some d ∧ x.Means d.toRat := by
  rw [toDecimal?, magnitude_of_isFinite h]
  by_cases hw : x.word = 0
  · refine ⟨0, ?_, h, 0, ?_, ?_⟩
    · rw [hw]
      rfl
    · rw [hw]
      exact isShortest_zero
    · rw [neg_zero, ite_self, toRat_zero]
  have hpos := Nat.pos_of_ne_zero hw
  have hproper := proper_interval hpos
  obtain ⟨d, hd⟩ := hproper.exists_shortest
  have hshortest := hproper.isShortest hd
  have hadmits : RoundsTo x.word = (interval x.word).Mem :=
    funext fun v => propext (roundsTo_iff hpos)
  rw [middle_interval, ← hadmits] at hshortest
  rw [interval] at hd
  obtain ⟨m, hm⟩ := Nat.exists_eq_succ_of_ne_zero ((rungSignificand_bounds x.word).2.1 hpos).ne'
  rw [hm] at hd ⊢
  refine ⟨if x.isNegative then -d else d, ?_, h, d.toRat, hshortest, ?_⟩
  · simp only [hd, Option.getD_some]
  · split
    · exact toRat_neg d
    · rfl

theorem Means.unique {u : ℚ} (hu : x.Means u) (hv : x.Means v) : u = v := by
  obtain ⟨-, a, ha, rfl⟩ := hu
  obtain ⟨-, b, hb, rfl⟩ := hv
  rw [ha.unique hb]

theorem toDecimal?_eq_none_iff : x.toDecimal? = none ↔ ¬x.IsFinite := by
  constructor
  · intro hnone hfinite
    obtain ⟨d, hd, -⟩ := exists_toDecimal? hfinite
    rw [hnone] at hd
    cases hd
  · exact toDecimal?_eq_none

theorem means_iff : x.Means v ↔ ∃ d, x.toDecimal? = some d ∧ d.toRat = v := by
  constructor
  · intro hv
    obtain ⟨d, hd, hmeans⟩ := exists_toDecimal? hv.1
    exact ⟨d, hd, hmeans.unique hv⟩
  · intro h
    obtain ⟨d, hd, rfl⟩ := h
    have hfinite : x.IsFinite := by
      by_contra hno
      rw [toDecimal?_eq_none hno] at hd
      cases hd
    obtain ⟨d', hd', hmeans⟩ := exists_toDecimal? hfinite
    rwa [Option.some_inj.mp (hd.symm.trans hd')]

end Decimals

end DecimalPoly.Binary64
