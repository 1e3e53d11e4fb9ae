import DecimalPoly.Decimal.Division
import DecimalPoly.Proofs.Decimal.Value
import Mathlib.Data.Rat.Floor

/-! Rounding to the nearest integer, a half to the even one, and the integer procedure for it: the
floor of a number with a flag for the rest is enough to round the number itself to tens. -/
namespace DecimalPoly.Decimal

structure NearestEven (x : ℚ) (n : ℤ) : Prop where
  near : |x - n| ≤ 1 / 2
  even_of_tie : |x - n| = 1 / 2 → Even n

namespace NearestEven

theorem of_lt {x : ℚ} {n : ℤ} (h : |x - n| < 1 / 2) : NearestEven x n :=
  ⟨h.le, fun ht => absurd ht h.ne⟩

theorem intCast (n : ℤ) : NearestEven (n : ℚ) n := of_lt (by norm_num)

theorem below {x : ℚ} {n : ℤ} (hle : n ≤ x) (hlt : x < n + 1 / 2) : NearestEven x n := by
  apply of_lt
  rw [abs_lt]
  constructor <;> linarith

theorem above {x : ℚ} {n : ℤ} (hlt : n + 1 / 2 < x) (hle : x ≤ n + 1) :
    NearestEven x (n + 1) := by
  apply of_lt
  rw [abs_lt]
  push_cast
  constructor <;> linarith

theorem half {x : ℚ} {n : ℤ} (hx : x = n + 1 / 2) (hn : Even n) : NearestEven x n :=
  ⟨by rw [hx, add_sub_cancel_left]; norm_num, fun _ => hn⟩

theorem half_succ {x : ℚ} {n : ℤ} (hx : x = n + 1 / 2) (hn : ¬ Even n) :
    NearestEven x (n + 1) := by
  refine ⟨?_, fun _ => Int.even_add_one.mpr hn⟩
  rw [hx, abs_le]
  push_cast
  constructor <;> linarith

theorem even_of_eq {x : ℚ} {n : ℤ} (h : NearestEven x n)
    (hx : x = n + 1 / 2 ∨ x = n - 1 / 2) : Even n := by
  apply h.even_of_tie
  cases hx with
  | inl hx => rw [hx]; norm_num
  | inr hx => rw [hx]; norm_num

/-- Two candidates lie at most one apart, and the parities forbid that a tie be between them. -/
theorem unique {x : ℚ} {m n : ℤ} (hm : NearestEven x m) (hn : NearestEven x n) : m = n := by
  wlog hle : m ≤ n generalizing m n
  · exact (this hn hm (by omega)).symm
  have hm' := abs_le.mp hm.near
  have hn' := abs_le.mp hn.near
  have hnear : n ≤ m + 1 := by
    have : (n : ℚ) ≤ m + 1 := by linarith
    exact_mod_cast this
  by_contra hne
  obtain rfl : n = m + 1 := by omega
  push_cast at hn'
  have hx : x = m + 1 / 2 := by linarith
  have hem := hm.even_of_eq (.inl hx)
  have hen := hn.even_of_eq (.inr (by push_cast; linarith))
  exact Int.even_add_one.mp hen hem

theorem between {x : ℚ} {l n h : ℤ} (hn : NearestEven x n) (hl : l ≤ x) (hh : x ≤ h) :
    l ≤ n ∧ n ≤ h := by
  have hx := abs_le.mp hn.near
  have h1 : (l : ℚ) < n + 1 := by linarith
  have h2 : (n : ℚ) < h + 1 := by linarith
  have h1' : l < n + 1 := by exact_mod_cast h1
  have h2' : n < h + 1 := by exact_mod_cast h2
  omega

end NearestEven

theorem tenPow_even {n : Nat} (h : 0 < n) : tenPow n % 2 = 0 := by
  obtain ⟨k, rfl⟩ := Nat.exists_eq_succ_of_ne_zero h.ne'
  rw [Nat.succ_eq_add_one, tenPow_succ]
  omega

/-- Twice the rest of `value` below `10 ^ dropped` decides alone, unless it is just that power.
The power is even, so the fraction that `value` lost cannot close a gap of two. -/
theorem nearestEven_roundHalfEven {t : ℚ} {value dropped : Nat} {sticky : Bool}
    (hdropped : 0 < dropped) (hle : (value : ℚ) ≤ t) (hlt : t < value + 1)
    (hsticky : sticky = true ↔ t ≠ value) :
    NearestEven (t / 10 ^ dropped) (roundHalfEven value dropped sticky : Nat) := by
  have hunit : (0 : ℚ) < tenPow dropped := by exact_mod_cast tenPow_pos dropped
  have heven := tenPow_even hdropped
  rw [← tenPow_cast]
  unfold roundHalfEven
  dsimp only
  generalize tenPow dropped = unit at *
  have hsplit : unit * (value / unit) + value % unit = value := Nat.div_add_mod value unit
  have hrest : value % unit + 1 ≤ unit := Nat.mod_lt _ (by exact_mod_cast hunit)
  generalize value / unit = kept at *
  generalize value % unit = rest at *
  have hvalue : (value : ℚ) = unit * (kept : ℤ) + rest := by exact_mod_cast hsplit.symm
  have hfits : (rest + 1 : ℚ) ≤ unit := by exact_mod_cast hrest
  have hkept : ((kept : ℤ) : ℚ) ≤ t / unit := by
    rw [le_div_iff₀ hunit]
    linarith [rest.cast_nonneg (α := ℚ)]
  have hsucc : t / unit ≤ (kept : ℤ) + 1 := by
    rw [div_le_iff₀ hunit]
    linarith
  split_ifs with hlow hhigh hup
  · apply NearestEven.below hkept
    have h2 : (2 * (rest + 1) : ℚ) ≤ unit := by exact_mod_cast (by omega : 2 * (rest + 1) ≤ unit)
    rw [div_lt_iff₀ hunit]
    linarith
  · apply NearestEven.above _ hsucc
    have h2 : (unit : ℚ) < 2 * rest := by exact_mod_cast hhigh
    rw [lt_div_iff₀ hunit]
    linarith
  · have h2 : (unit : ℚ) = 2 * rest := by exact_mod_cast (by omega : unit = 2 * rest)
    by_cases ht : t = value
    · have hflag : sticky = false := by simpa [ht] using hsticky
      have hodd : kept % 2 = 1 := by simpa [hflag] using hup
      have hne : ¬ Even (kept : ℤ) := by rw [Int.even_iff]; omega
      refine NearestEven.half_succ ?_ hne
      rw [div_eq_iff hunit.ne']
      linarith
    · apply NearestEven.above _ hsucc
      have hgt : (value : ℚ) < t := lt_of_le_of_ne hle (Ne.symm ht)
      rw [lt_div_iff₀ hunit]
      linarith
  · have h2 : (unit : ℚ) = 2 * rest := by exact_mod_cast (by omega : unit = 2 * rest)
    have ht : t = value := by
      by_contra h
      simp [hsticky.mpr h] at hup
    have heven' : kept % 2 = 0 := by
      simp only [Bool.or_eq_true, decide_eq_true_eq, not_or] at hup
      omega
    have he : Even (kept : ℤ) := by rw [Int.even_iff]; omega
    refine NearestEven.half ?_ he
    rw [div_eq_iff hunit.ne']
    linarith

theorem exists_eq_intCast_iff {t : ℚ} (ht : 0 ≤ t) : (∃ m : ℤ, t = m) ↔ t = ⌊t⌋₊ := by
  constructor
  · rintro ⟨m, rfl⟩
    obtain ⟨n, rfl⟩ := Int.eq_ofNat_of_zero_le (Int.cast_nonneg_iff.mp ht)
    rw [Int.cast_natCast, Nat.floor_natCast]
  · intro h
    exact ⟨⌊t⌋₊, h.trans (Int.cast_natCast _).symm⟩

/-- To round a number to tens it is enough to know its floor and whether it is an integer. -/
theorem roundHalfEven_floor {t : ℚ} (ht : 0 ≤ t) {k : Nat} (hk : 1 ≤ k) {sticky : Bool}
    (hsticky : sticky = true ↔ ¬∃ m : ℤ, t = m) (n : ℤ) :
    NearestEven (t / 10 ^ k) n ↔ n = roundHalfEven ⌊t⌋₊ k sticky := by
  have hflag : sticky = true ↔ t ≠ ⌊t⌋₊ := hsticky.trans (not_congr (exists_eq_intCast_iff ht))
  have hnear := nearestEven_roundHalfEven hk (Nat.floor_le ht) (Nat.lt_floor_add_one t) hflag
  constructor
  · intro h
    exact h.unique hnear
  · rintro rfl
    exact hnear

/-- A little more than the half between two numbers carries through all nines. -/
theorem roundHalfEven_floor_nines :
    let t : ℚ := 299986 / 3
    0 ≤ t ∧ (¬∃ m : ℤ, t = m) ∧ roundHalfEven ⌊t⌋₊ 1 true = 10000 ∧ NearestEven (t / 10 ^ 1) 10000 := by
  intro t
  have ht : 0 ≤ t := by norm_num [t]
  have hfloor : ⌊t⌋₊ = 99995 := by
    rw [Nat.floor_eq_iff ht]
    constructor <;> norm_num [t]
  have hsticky : ¬∃ m : ℤ, t = m := by
    rw [exists_eq_intCast_iff ht, hfloor]
    norm_num [t]
  have hround : roundHalfEven ⌊t⌋₊ 1 true = 10000 := by rw [hfloor]; decide
  have hflag : true = true ↔ ¬∃ m : ℤ, t = m := iff_of_true rfl hsticky
  refine ⟨ht, hsticky, hround, (roundHalfEven_floor ht le_rfl hflag 10000).mpr ?_⟩
  rw [hround]
  rfl

end DecimalPoly.Decimal
