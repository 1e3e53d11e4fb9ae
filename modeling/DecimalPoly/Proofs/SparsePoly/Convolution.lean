import DecimalPoly.Proofs.Plain.Operations

/-! Products by coefficients. The coefficient of a product at an exponent is the sum over all pairs of
exponents that add up to it, whichever of them meet and cancel. The leading terms meet no others: their
product is the first term, and whether it is in range decides whether there is a product. -/
namespace DecimalPoly.SparsePoly
open Polynomial
variable {p q m : SparsePoly}

theorem coefficient_mul? (h : p.mul? q = .ok m) (e : Nat) : (m.coefficient e).toRat =
    ∑ x ∈ Finset.HasAntidiagonal.antidiagonal e, (p.coefficient x.1).toRat * (q.coefficient x.2).toRat := by
  rw [← coeff_value, value_of_mul? h, coeff_mul]
  simp only [coeff_value]

theorem leadingTerm_mul? (hp : p ≠ 0) (hq : q ≠ 0) (h : p.mul? q = .ok m) :
    p.leadingTerm.mul? q.leadingTerm = some m.leadingTerm := by
  have hexponent := leadingExponent_of_mul? hp hq h
  have hcoefficient : m.leadingCoefficient = p.leadingCoefficient * q.leadingCoefficient := by
    apply Decimal.toRat_injective
    rw [Decimal.toRat_mul, ← leadingCoeff_value, ← leadingCoeff_value, ← leadingCoeff_value,
      value_of_mul? h, leadingCoeff_mul]
  have hfit : p.leadingTerm.exponent + q.leadingTerm.exponent ≤ maxExponent :=
    (mul?_eq_ok_iff.mp h).1
  rw [Term.mul?, dif_pos hfit, Option.some_inj]
  exact Term.ext hcoefficient.symm hexponent.symm

theorem ne_zero_of_mul? (hp : p ≠ 0) (hq : q ≠ 0) (h : p.mul? q = .ok m) : m ≠ 0 := by
  rw [ne_eq, ← value_eq_zero, value_of_mul? h]
  exact mul_ne_zero (mt value_eq_zero.mp hp) (mt value_eq_zero.mp hq)

theorem mul?_eq_error_iff {e : Failure} : p.mul? q = .error e ↔
    maxExponent < p.leadingExponent + q.leadingExponent ∧
      e = .exponentOverflow p.leadingExponent q.leadingExponent := by
  by_cases hfit : p.leadingExponent + q.leadingExponent ≤ maxExponent
  · obtain ⟨m, hm, -⟩ := mul?_eq_ok hfit
    rw [hm]
    simp [hfit.not_gt]
  · have hlt := Nat.lt_of_not_le hfit
    rw [mul?_eq_error hlt, Except.error.injEq, and_iff_right hlt]
    exact eq_comm

/-- A product exists if its leading terms have one, and otherwise it is these two that are blamed. Its
coefficients are those of the convolution, and the leading terms of two factors other than zero give
its own. The rows of terms that are shown have the same products. -/
theorem product_convolution (p q : SparsePoly) :
    ((∃ m, p.mul? q = .ok m) ↔ p.leadingExponent + q.leadingExponent ≤ maxExponent) ∧
    (∀ e, p.mul? q = .error e ↔ maxExponent < p.leadingExponent + q.leadingExponent ∧
      e = .exponentOverflow p.leadingExponent q.leadingExponent) ∧
    (∀ m, p.mul? q = .ok m →
      (∀ e, (m.coefficient e).toRat = ∑ x ∈ Finset.HasAntidiagonal.antidiagonal e,
        (p.coefficient x.1).toRat * (q.coefficient x.2).toRat) ∧
      (p ≠ 0 → q ≠ 0 → p.leadingTerm.mul? q.leadingTerm = some m.leadingTerm ∧
        m.leadingCoefficient ≠ 0)) ∧
    p.row.mul? q.row = (p.mul? q).map row := by
  refine ⟨⟨?_, fun hfit => ?_⟩, fun _ => mul?_eq_error_iff, fun m hm => ⟨coefficient_mul? hm, ?_⟩,
    row_mul? p q⟩
  · intro hprod
    obtain ⟨m, hm⟩ := hprod
    exact (mul?_eq_ok_iff.mp hm).1
  · obtain ⟨m, hm, -⟩ := mul?_eq_ok hfit
    exact ⟨m, hm⟩
  · intro hp hq
    exact ⟨leadingTerm_mul? hp hq hm, leadingCoefficient_ne_zero (ne_zero_of_mul? hp hq hm)⟩

/-- The middle terms cancel in a product of two binomials. A square of half the highest degree and one
more does not exist. -/
theorem product_convolution_cancelling :
    let p : SparsePoly := ⟨[⟨1, 1, by decide⟩, ⟨1, 0, by decide⟩], by simp [Descending], by decide⟩
    let q : SparsePoly := ⟨[⟨1, 1, by decide⟩, ⟨.ofInt (-1), 0, by decide⟩],
      by simp [Descending], by decide⟩
    let m : SparsePoly := ⟨[⟨1, 2, by decide⟩, ⟨.ofInt (-1), 0, by decide⟩],
      by simp [Descending], by decide⟩
    let s : SparsePoly := ofTerm ⟨1, 2147483648, by decide⟩
    p ≠ 0 ∧ q ≠ 0 ∧ p.mul? q = .ok m ∧ m.coefficient 1 = 0 ∧
      (m.coefficient 1).toRat = ∑ x ∈ Finset.HasAntidiagonal.antidiagonal 1,
        (p.coefficient x.1).toRat * (q.coefficient x.2).toRat ∧
      p.leadingTerm.mul? q.leadingTerm = some m.leadingTerm ∧ m.leadingCoefficient ≠ 0 ∧
      s.mul? s = .error (.exponentOverflow 2147483648 2147483648) := by
  intro p q m s
  have hp : p ≠ 0 := by decide
  have hq : q ≠ 0 := by decide
  have hm : p.mul? q = .ok m := by decide +kernel
  obtain ⟨-, -, hproduct, -⟩ := product_convolution p q
  obtain ⟨hcoefficient, hleading⟩ := hproduct m hm
  obtain ⟨-, herror, -⟩ := product_convolution s s
  exact ⟨hp, hq, hm, rfl, hcoefficient 1, (hleading hp hq).1, (hleading hp hq).2,
    (herror _).mpr ⟨by decide, rfl⟩⟩

end DecimalPoly.SparsePoly
