import DecimalPoly.Proofs.Decimal.Value
import Mathlib.Algebra.BigOperators.Group.List.Lemmas
import Mathlib.Algebra.Ring.InjSurj

/-! Decimals are a commutative ring with the operations they are computed with, since the rational
numbers are one and decimals are some of these. Sums and products of lists, which are formed from
the left, do not depend on the order of the list. -/
namespace DecimalPoly.Decimal

instance : NatCast Decimal := ⟨fun n => ofInt n⟩
instance : IntCast Decimal := ⟨ofInt⟩
instance : Pow Decimal ℕ := ⟨pow⟩
instance : SMul ℕ Decimal := ⟨fun n d => ofInt n * d⟩
instance : SMul ℤ Decimal := ⟨fun n d => ofInt n * d⟩

@[simp] theorem toRat_natCast (n : ℕ) : (n : Decimal).toRat = n :=
  (toRat_ofInt n).trans (Int.cast_natCast n)

@[simp] theorem toRat_intCast (n : ℤ) : (n : Decimal).toRat = n := toRat_ofInt n

theorem toRat_npow (d : Decimal) (n : ℕ) : (d ^ n).toRat = d.toRat ^ n := toRat_pow d n

theorem toRat_nsmul (n : ℕ) (d : Decimal) : (n • d).toRat = n • d.toRat := by
  change (ofInt n * d).toRat = _
  rw [toRat_mul, toRat_ofInt, nsmul_eq_mul, Int.cast_natCast]

theorem toRat_zsmul (n : ℤ) (d : Decimal) : (n • d).toRat = n • d.toRat := by
  change (ofInt n * d).toRat = _
  rw [toRat_mul, toRat_ofInt, zsmul_eq_mul]

instance : CommRing Decimal :=
  Function.Injective.commRing toRat (fun _ _ => toRat_injective) toRat_zero toRat_one toRat_add
    toRat_mul toRat_neg toRat_sub toRat_nsmul toRat_zsmul toRat_npow toRat_natCast toRat_intCast

def toRatHom : Decimal →+* ℚ where
  toFun := toRat
  map_zero' := toRat_zero
  map_one' := toRat_one
  map_add' := toRat_add
  map_mul' := toRat_mul

theorem sum_eq (ds : List Decimal) : sum ds = ds.sum := List.sum_eq_foldl.symm

theorem product_eq (ds : List Decimal) : product ds = ds.prod := List.prod_eq_foldl.symm

theorem toRat_sum (ds : List Decimal) : (sum ds).toRat = (ds.map toRat).sum := by
  rw [sum_eq]
  exact map_list_sum toRatHom ds

theorem sum_perm {ds es : List Decimal} (h : ds.Perm es) : sum ds = sum es := by
  rw [sum_eq, sum_eq, h.sum_eq]

theorem product_perm {ds es : List Decimal} (h : ds.Perm es) : product ds = product es := by
  rw [product_eq, product_eq, h.prod_eq]

end DecimalPoly.Decimal
