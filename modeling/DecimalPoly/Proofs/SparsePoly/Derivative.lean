import DecimalPoly.Proofs.SparsePoly.Power

/-! Formal derivatives. They are the derivatives of the polynomials over the rationals, so sums,
products and powers are differentiated by the usual rules. A derivative has no higher leading exponent
than what it is taken of: the products that a rule needs exist whenever the product or the power that
it is about exists. -/
namespace DecimalPoly.SparsePoly
open Polynomial
variable {p q m : SparsePoly} {n : Nat}

theorem coefficient_derivative (p : SparsePoly) (e : Nat) :
    p.derivative.coefficient e = Decimal.ofInt (e + 1) * p.coefficient (e + 1) := by
  apply Decimal.toRat_injective
  rw [← coeff_value, value_derivative, coeff_derivative, coeff_value, Decimal.toRat_mul,
    Decimal.toRat_ofInt, mul_comm]
  push_cast
  rfl

theorem derivative_add (p q : SparsePoly) : (p + q).derivative = p.derivative + q.derivative := by
  apply value_injective
  rw [value_derivative, value_add, Polynomial.derivative_add, value_add, value_derivative,
    value_derivative]

theorem leadingExponent_derivative_le (p : SparsePoly) :
    p.derivative.leadingExponent ≤ p.leadingExponent - 1 := by
  rw [← natDegree_value, value_derivative, ← natDegree_value]
  exact natDegree_derivative_le _

/-- Both products of the rule have an exponent less to carry, or a factor zero. -/
theorem derivative_mul? (h : p.mul? q = .ok m) : ∃ l r, p.derivative.mul? q = .ok l ∧
    p.mul? q.derivative = .ok r ∧ m.derivative = l + r := by
  obtain ⟨hfit, hval⟩ := mul?_eq_ok_iff.mp h
  have hp := p.leadingExponent_derivative_le
  have hq := q.leadingExponent_derivative_le
  obtain ⟨l, hl, hlval⟩ := mul?_eq_ok (p := p.derivative) (q := q) (by omega)
  obtain ⟨r, hr, hrval⟩ := mul?_eq_ok (p := p) (q := q.derivative) (by omega)
  refine ⟨l, r, hl, hr, ?_⟩
  apply value_injective
  rw [value_derivative, hval, derivative_mul, value_add, hlval, hrval, value_derivative,
    value_derivative]

theorem derivative_pow? (hn : 0 < n) (h : p.pow? n = .ok m) : ∃ q r, p.pow? (n - 1) = .ok q ∧
    q.mul? p.derivative = .ok r ∧ m.derivative = r.scalarMul (.ofInt n) := by
  obtain ⟨k, rfl⟩ := Nat.exists_eq_add_of_lt hn
  rw [Nat.zero_add] at h ⊢
  rw [Nat.add_sub_cancel]
  obtain ⟨hfit, hval⟩ := pow?_eq_ok_iff.mp h
  rw [Nat.mul_succ] at hfit
  obtain ⟨q, hq, hqval⟩ := pow?_eq_ok (p := p) (n := k) (by omega)
  have hqexp := leadingExponent_of_value_pow hqval
  have hp := p.leadingExponent_derivative_le
  obtain ⟨r, hr, hrval⟩ := mul?_eq_ok (p := q) (q := p.derivative) (by omega)
  refine ⟨q, r, hq, hr, ?_⟩
  apply value_injective
  rw [value_derivative, hval, derivative_pow, value_scalarMul, hrval, hqval, value_derivative,
    Decimal.toRat_ofInt, Int.cast_natCast, Nat.add_sub_cancel]
  ring

/-- The derivative multiplies each coefficient by its exponent, respects sums and follows the rules for
products and powers. Whatever the rules need exists where the product or the power does. The rows of
terms that are shown have the same derivatives. -/
theorem derivative_laws (a b : SparsePoly) (n : Nat) :
    (∀ e, a.derivative.coefficient e = Decimal.ofInt (e + 1) * a.coefficient (e + 1)) ∧
    (a + b).derivative = a.derivative + b.derivative ∧
    (∀ m, a.mul? b = .ok m → ∃ l r, a.derivative.mul? b = .ok l ∧ a.mul? b.derivative = .ok r ∧
      m.derivative = l + r) ∧
    (∀ m, 0 < n → a.pow? n = .ok m → ∃ q r, a.pow? (n - 1) = .ok q ∧
      q.mul? a.derivative = .ok r ∧ m.derivative = r.scalarMul (.ofInt n)) ∧
    a.derivative.row = a.row.derivative :=
  ⟨coefficient_derivative a, derivative_add a b, fun _ => derivative_mul?,
    fun _ => derivative_pow?, row_derivative a⟩

theorem derivative_laws_at_limit :
    let a : SparsePoly := ofTerms [⟨1, 2147483647, by decide⟩, ⟨.ofScaled 5 1, 0, by decide⟩]
    let b : SparsePoly := ofTerms [⟨.ofInt 2, 2147483648, by decide⟩, ⟨.ofInt (-3), 0, by decide⟩]
    (∃ m, a.mul? b = .ok m ∧ ∃ l r, a.derivative.mul? b = .ok l ∧ a.mul? b.derivative = .ok r ∧
      m.derivative = l + r) ∧
    ∃ m, a.pow? 2 = .ok m ∧ ∃ q r, a.pow? 1 = .ok q ∧ q.mul? a.derivative = .ok r ∧
      m.derivative = r.scalarMul (.ofInt 2) := by
  intro a b
  let m : SparsePoly := ofTerms [⟨.ofInt 2, 4294967295, by decide⟩, ⟨1, 2147483648, by decide⟩,
    ⟨.ofInt (-3), 2147483647, by decide⟩, ⟨.ofScaled (-15) 1, 0, by decide⟩]
  let s : SparsePoly := ofTerms [⟨1, 4294967294, by decide⟩, ⟨1, 2147483647, by decide⟩,
    ⟨.ofScaled 25 2, 0, by decide⟩]
  have hm : a.mul? b = .ok m := by decide +kernel
  have hs : a.pow? 2 = .ok s := by decide +kernel
  obtain ⟨-, -, hmul, hpow, -⟩ := derivative_laws a b 2
  exact ⟨⟨m, hm, hmul m hm⟩, s, hs, hpow s (by decide) hs⟩

end DecimalPoly.SparsePoly
