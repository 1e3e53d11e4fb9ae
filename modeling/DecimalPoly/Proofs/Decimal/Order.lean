import DecimalPoly.Proofs.Plain.Arithmetic
import Mathlib.Algebra.Order.Group.Unbundled.Basic
import Mathlib.Algebra.Order.Ring.InjSurj
import Mathlib.Data.List.Sort

/-! Numbers are ordered by their values. Two mantissas at one scale compare as the numbers do, whatever
their scales were before, so decimals are a linearly ordered ring. In lowest terms a number has one form
only: numbers that compare equal are the same, and a list has one ascending arrangement. -/
namespace DecimalPoly.Decimal

theorem compare_rescaled (m n : ℤ) (j k : ℕ) :
    compare (m * tenPow (max j k - j)) (n * tenPow (max j k - k)) =
      compare ((m : ℚ) / 10 ^ j) ((n : ℚ) / 10 ^ k) := by
  have hpos : (0 : ℚ) < 10 ^ max j k := by positivity
  rw [← cmp_eq_compare, ← cmp_eq_compare, ← (Int.cast_strictMono (R := ℚ)).cmp_map_eq,
    rescaled_value m (Nat.le_max_left j k), rescaled_value n (Nat.le_max_right j k),
    cmp_mul_pos_right hpos]

end DecimalPoly.Decimal

namespace DecimalPoly.Plain.Number

instance : Ord Number where
  compare x y :=
    let s := max x.scale y.scale
    compare (x.mantissaAt s) (y.mantissaAt s)

theorem compare_toRat (x y : Number) : compare x y = compare x.toRat y.toRat :=
  Decimal.compare_rescaled ..

theorem compare_mantissa_zero (x : Number) : compare x.mantissa 0 = compare x.toRat 0 := by
  have h := Decimal.compare_rescaled x.mantissa 0 x.scale 0
  rwa [Nat.max_zero, Nat.sub_self, Int.zero_mul, show tenPow 0 = 1 from rfl, Nat.cast_one,
    Int.mul_one, Int.cast_zero, zero_div] at h

theorem compare_sub (x y : Number) : compare (x.sub y).mantissa 0 = compare x y := by
  rw [compare_mantissa_zero, toRat_sub, compare_toRat, ← cmp_eq_compare, cmp_sub_zero,
    cmp_eq_compare]

/-- Without lowest terms, numbers with different digits may compare equal. -/
theorem compare_eq_iff {x y : Number} (hx : x.Lowest) (hy : y.Lowest) :
    compare x y = .eq ↔ x.mantissa = y.mantissa ∧ x.scale = y.scale := by
  rw [compare_toRat, compare_eq_iff_eq, toRat_eq_iff hx hy]

example : compare (⟨10, 1⟩ : Number) ⟨1, 0⟩ = .eq := by decide

end DecimalPoly.Plain.Number

namespace DecimalPoly.Decimal

theorem compare_toRat (a b : Decimal) : compare a b = compare a.toRat b.toRat := compare_rescaled ..

theorem le_iff {a b : Decimal} : a ≤ b ↔ a.toRat ≤ b.toRat := by
  change (compare a b).isLE = true ↔ _
  rw [compare_toRat]
  exact Std.LawfulBCmp.isLE_iff_le

theorem lt_iff {a b : Decimal} : a < b ↔ a.toRat < b.toRat := by
  change (compare a b).isLT = true ↔ _
  rw [Ordering.isLT_iff_eq_lt, compare_toRat]
  exact compare_lt_iff_lt

theorem toRat_nonneg {a : Decimal} : 0 ≤ a.toRat ↔ 0 ≤ a := by rw [le_iff, toRat_zero]

theorem toRat_pos {a : Decimal} : 0 < a.toRat ↔ 0 < a := by rw [lt_iff, toRat_zero]

theorem toRat_min (a b : Decimal) : (min a b).toRat = min a.toRat b.toRat := by
  change (if a ≤ b then a else b).toRat = _
  rw [apply_ite toRat, min_def]
  simp only [le_iff]

theorem toRat_max (a b : Decimal) : (max a b).toRat = max a.toRat b.toRat := by
  change (if a ≤ b then b else a).toRat = _
  rw [apply_ite toRat, max_def]
  simp only [le_iff]

instance : LinearOrder Decimal :=
  Function.Injective.linearOrder toRat (fun _ _ => toRat_injective) le_iff.symm lt_iff.symm
    toRat_min toRat_max fun a b => (compare_toRat a b).symm

instance : IsStrictOrderedRing Decimal :=
  Function.Injective.isStrictOrderedRing toRat toRat_zero toRat_one toRat_add toRat_mul
    le_iff.symm lt_iff.symm

theorem sorted_perm (ds : List Decimal) : (sorted ds).Perm ds := List.mergeSort_perm ..

theorem ascending_sorted (ds : List Decimal) : (sorted ds).Pairwise (· ≤ ·) :=
  List.pairwise_mergeSort' (· ≤ ·) ds

theorem eq_sorted {ds es : List Decimal} (hperm : es.Perm ds) (he : es.Pairwise (· ≤ ·)) :
    es = sorted ds :=
  List.Perm.eq_of_pairwise' he (ascending_sorted ds) (hperm.trans (sorted_perm ds).symm)

/-- Comparison at a common scale is the order of the values and the sign of the difference, and only
the same digits at the same scale compare equal. It is a total order that sums respect and products with
a positive number, and by which a list has one ascending arrangement, whatever its order was. The bare
pairs of a mantissa and a scale compare alike. -/
theorem decimal_order (a b c : Decimal) (ds : List Decimal) :
    compare a b = compare a.toRat b.toRat ∧
    (compare a b = .eq ↔ a.mantissa = b.mantissa ∧ a.scale = b.scale) ∧
    (a ≤ b ∨ b ≤ a) ∧ (a ≤ b → b ≤ a → a = b) ∧ (a ≤ b → b ≤ c → a ≤ c) ∧
    compare b a = (compare a b).swap ∧
    compare a b = compare (a - b).mantissa 0 ∧
    (a ≤ b ↔ a + c ≤ b + c) ∧ (0 < c → (a ≤ b ↔ a * c ≤ b * c)) ∧
    (sorted ds).Perm ds ∧ (sorted ds).Pairwise (· ≤ ·) ∧
    (∀ es : List Decimal, es.Perm ds →
      sorted es = sorted ds ∧ (es.Pairwise (· ≤ ·) → es = sorted ds)) ∧
    ∀ x y : Plain.Number, compare x y = compare x.toRat y.toRat ∧
      compare x y = compare (x.sub y).mantissa 0 ∧
      (x.Lowest → y.Lowest → (compare x y = .eq ↔ x.mantissa = y.mantissa ∧ x.scale = y.scale)) := by
  have hequal := Plain.Number.compare_eq_iff (Plain.Number.lowest_ofDecimal a)
    (Plain.Number.lowest_ofDecimal b)
  have hsign : compare (a - b).mantissa 0 = compare a b := by
    have h := Plain.Number.compare_sub (.ofDecimal a) (.ofDecimal b)
    rwa [Plain.Number.sub_ofDecimal] at h
  refine ⟨compare_toRat a b, hequal, le_total a b, le_antisymm, le_trans, Std.OrientedCmp.eq_swap,
    hsign.symm, (add_le_add_iff_right c).symm, fun hc => (mul_le_mul_iff_of_pos_right hc).symm,
    sorted_perm ds, ascending_sorted ds, fun es hperm => ⟨?_, eq_sorted hperm⟩, fun x y => ?_⟩
  · exact eq_sorted ((sorted_perm es).trans hperm) (ascending_sorted es)
  · exact ⟨Plain.Number.compare_toRat x y, (Plain.Number.compare_sub x y).symm,
      Plain.Number.compare_eq_iff⟩

theorem decimal_order_three_scales :
    let a := ofScaled (-75) 2
    let b := ofScaled 5 1
    let c := ofInt 2
    let twice := ofScaled 25 2 + ofScaled 25 2
    let x : Plain.Number := ⟨5, 1⟩
    (a ≤ b ∧ b ≤ c ∧ a ≤ c) ∧ (0 < c ∧ a * c ≤ b * c) ∧
      (b ≤ twice ∧ twice ≤ b ∧ b = twice) ∧
      ([a, b, c].Perm [c, a, b] ∧ [a, b, c].Pairwise (· ≤ ·) ∧ [a, b, c] = sorted [c, a, b]) ∧
      x.Lowest ∧ compare x x = .eq := by
  intro a b c twice x
  have hab : a ≤ b := by decide
  have hbc : b ≤ c := by decide
  have hc : 0 < c := by decide
  have hb : b ≤ twice ∧ twice ≤ b := by decide
  have hperm : ([a, b] ++ [c]).Perm ([c] ++ [a, b]) := List.perm_append_comm
  have hascending : [a, b, c].Pairwise (· ≤ ·) := by decide
  have hx : x.Lowest := by decide
  obtain ⟨-, -, -, -, htrans, -, -, -, hmul, -, -, hsort, hpairs⟩ := decimal_order a b c [c, a, b]
  obtain ⟨-, -, -, hanti, -⟩ := decimal_order b twice c []
  obtain ⟨-, -, hequal⟩ := hpairs x x
  exact ⟨⟨hab, hbc, htrans hab hbc⟩, ⟨hc, (hmul hc).mp hab⟩, ⟨hb.1, hb.2, hanti hb.1 hb.2⟩,
    ⟨hperm, hascending, (hsort _ hperm).2 hascending⟩, hx, (hequal hx hx).mpr ⟨rfl, rfl⟩⟩

end DecimalPoly.Decimal
