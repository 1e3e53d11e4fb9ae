import DecimalPoly.SparsePoly.Building
import DecimalPoly.Proofs.Plain.Arithmetic
import DecimalPoly.Proofs.SparsePoly.Power
import Mathlib.Algebra.Polynomial.Eval.Coeff
import Mathlib.Algebra.Polynomial.Eval.Degree

/-! Evaluation agrees with that of the polynomials over the rationals, so it turns sums, multiples,
products and powers of polynomials into those of the values. It does so digit by digit, as a decimal
has only one form. Rows are evaluated entry by entry, to the same numbers. -/
namespace DecimalPoly
open Polynomial

namespace Plain

def Entry.evaluate (t : Entry) (x : Number) : Number := t.coefficient.mul (x.pow t.exponent)

def Row.evaluate (r : Row) (x : Number) : Number := (r.map fun t => t.evaluate x).foldl Number.add .zero

theorem Entry.evaluate_ofTerm (t : Term) (x : Decimal) :
    (Entry.ofTerm t).evaluate (.ofDecimal x) = .ofDecimal (t.evaluate x) := by
  rw [Entry.evaluate, Entry.ofTerm, Number.pow_ofDecimal, Number.mul_ofDecimal, Term.evaluate]

theorem foldl_add_ofDecimal (ds : List Decimal) (d : Decimal) :
    (ds.map Number.ofDecimal).foldl Number.add (.ofDecimal d) =
      .ofDecimal (ds.foldl (· + ·) d) := by
  induction ds generalizing d with
  | nil => rfl
  | cons c ds ih => rw [List.map_cons, List.foldl_cons, Number.add_ofDecimal, ih, List.foldl_cons]

end Plain

theorem SparsePoly.row_evaluate (p : SparsePoly) (x : Decimal) :
    p.row.evaluate (.ofDecimal x) = .ofDecimal (p.evaluate x) := by
  have hvalues : (p.row.map fun t => t.evaluate (.ofDecimal x)) =
      (p.terms.map (·.evaluate x)).map Plain.Number.ofDecimal := by
    rw [row, Plain.Row.ofTerms, List.map_map, List.map_map]
    exact List.map_congr_left fun t _ => Plain.Entry.evaluate_ofTerm t x
  rw [Plain.Row.evaluate, hvalues]
  exact Plain.foldl_add_ofDecimal _ 0

theorem Term.toRat_evaluate (t : Term) (x : Decimal) :
    (t.evaluate x).toRat = t.value.eval x.toRat := by
  rw [Term.evaluate, Decimal.toRat_mul, Decimal.toRat_pow, Term.value, eval_monomial]

theorem toRat_sum_evaluate (ts : List Term) (x : Decimal) :
    (Decimal.sum (ts.map (·.evaluate x))).toRat = (valueOf ts).eval x.toRat := by
  rw [Decimal.toRat_sum, List.map_map]
  induction ts with
  | nil => simp
  | cons t ts ih =>
    rw [List.map_cons, List.sum_cons, ih, valueOf_cons, eval_add, Function.comp_apply,
      t.toRat_evaluate]

namespace SparsePoly

/-- The zero term that zero shows does not count. -/
theorem toRat_evaluate (p : SparsePoly) (x : Decimal) :
    (p.evaluate x).toRat = p.value.eval x.toRat := by
  rw [evaluate, toRat_sum_evaluate, valueOf_terms]

/-- Evaluation at a decimal gives the value of the polynomial there, and is a homomorphism of rings from
polynomials to decimals, for products and powers as far as they exist. Both sides are the same digit by
digit, also where terms cancel and at zero, whose power zero is one. -/
theorem evaluate_ring_hom (p q : SparsePoly) (x c : Decimal) (n : Nat) :
    p.evaluateAt (.decimal x) = .ok (p.evaluate x) ∧
    p.row.evaluate (.ofDecimal x) = .ofDecimal (p.evaluate x) ∧
    (p.evaluate x).toRat = p.value.eval x.toRat ∧
    (p + q).evaluate x = p.evaluate x + q.evaluate x ∧
    (p - q).evaluate x = p.evaluate x - q.evaluate x ∧
    (-p).evaluate x = -p.evaluate x ∧
    (p.scalarMul c).evaluate x = c * p.evaluate x ∧
    (0 : SparsePoly).evaluate x = 0 ∧ (1 : SparsePoly).evaluate x = 1 ∧ x.pow 0 = 1 ∧
    (∀ m, p.mul? q = .ok m → m.evaluate x = p.evaluate x * q.evaluate x) ∧
    ∀ r, p.pow? n = .ok r → r.evaluate x = (p.evaluate x).pow n := by
  refine ⟨rfl, p.row_evaluate x, p.toRat_evaluate x, ?_, ?_, ?_, ?_, ?_, ?_, ?_, fun m hm => ?_,
    fun r hr => ?_⟩ <;> apply Decimal.toRat_injective
  · simp [toRat_evaluate]
  · simp [toRat_evaluate]
  · simp [toRat_evaluate]
  · simp [toRat_evaluate, mul_comm]
  · simp [toRat_evaluate]
  · simp [toRat_evaluate]
  · simp
  · simp [toRat_evaluate, value_of_mul? hm]
  · simp [toRat_evaluate, value_of_pow? hr]

theorem evaluate_ring_hom_cancelling :
    let p : SparsePoly := ofTerms [⟨1, 3, by decide⟩, ⟨.ofInt (-2), 0, by decide⟩]
    let q : SparsePoly := ofTerms [⟨1, 3, by decide⟩, ⟨.ofInt 2, 0, by decide⟩]
    let half := Decimal.ofScaled 5 1
    let m : SparsePoly := ofTerms [⟨1, 6, by decide⟩, ⟨.ofInt (-4), 0, by decide⟩]
    p.mul? q = .ok m ∧ m.evaluate half = p.evaluate half * q.evaluate half ∧
      m.evaluate 0 = p.evaluate 0 * q.evaluate 0 ∧
      ∃ r, p.pow? 3 = .ok r ∧ r.evaluate half = (p.evaluate half).pow 3 := by
  intro p q half m
  have hm : p.mul? q = .ok m := by decide +kernel
  have hr : p.pow? 3 = .ok (ofTerms [⟨1, 9, by decide⟩, ⟨.ofInt (-6), 6, by decide⟩,
      ⟨.ofInt 12, 3, by decide⟩, ⟨.ofInt (-8), 0, by decide⟩]) := by decide +kernel
  obtain ⟨-, -, -, -, -, -, -, -, -, -, hmul, hpow⟩ := evaluate_ring_hom p q half 1 3
  obtain ⟨-, -, -, -, -, -, -, -, -, -, hmul0, -⟩ := evaluate_ring_hom p q 0 1 3
  exact ⟨hm, hmul m hm, hmul0 m hm, _, hr, hpow _ hr⟩

end SparsePoly
end DecimalPoly
