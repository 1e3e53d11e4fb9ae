import DecimalPoly.SparsePoly.Product
import DecimalPoly.Decimal.Division
import DecimalPoly.Journal

/-! Long division with rounded coefficients. From the top down, each term of what is left of the
dividend is divided by the leading term of the divisor, and that multiple of the divisor is taken
away. A rounded coefficient leaves a residue in its place, which is passed over. The remainder is
the dividend less quotient times divisor, so the three and the dividend fit together exactly. -/
namespace DecimalPoly

def SparsePoly.mulTerm (p : SparsePoly) (t : Term) : SparsePoly :=
  ofTerms (p.support.filterMap t.mul?)

/-- A division under way: the quotient terms so far, latest first, and what is left. -/
structure LongDivision where
  found : List Term
  left : SparsePoly

namespace LongDivision

def quotientTerm (divisor : SparsePoly) (precision : Nat) (t : Term) : Term where
  coefficient := t.coefficient.div divisor.leadingCoefficient precision
  exponent := t.exponent - divisor.leadingExponent
  exponent_le := Nat.le_trans (Nat.sub_le ..) t.exponent_le

def step (divisor : SparsePoly) (precision : Nat) (s : LongDivision) (t : Term) : LongDivision :=
  let q := quotientTerm divisor precision t
  ⟨q :: s.found, s.left - divisor.mulTerm q⟩

/-- The highest term below `bound` that the divisor's degree lets through. -/
def next? (divisor : SparsePoly) (bound : Nat) (s : LongDivision) : Option Term :=
  s.left.support.find? fun t => t.exponent < bound ∧ divisor.leadingExponent ≤ t.exponent

theorem exponent_lt_of_next? {divisor : SparsePoly} {bound : Nat} {s : LongDivision} {t : Term}
    (h : s.next? divisor bound = some t) : t.exponent < bound := by
  have := List.find?_some h
  simp_all

def run (divisor : SparsePoly) (precision bound : Nat) (s : LongDivision) : LongDivision :=
  match _ : s.next? divisor bound with
  | none => s
  | some t => run divisor precision t.exponent (s.step divisor precision t)
termination_by bound
decreasing_by exact exponent_lt_of_next? (by assumption)

def ofDivision (a b : SparsePoly) (precision : Nat) : LongDivision :=
  run b precision (a.leadingExponent + 1) ⟨[], a⟩

end LongDivision

namespace SparsePoly

def quotient (a b : SparsePoly) (precision : Nat) : Logged SparsePoly := do
  if b.isZero then Logged.fail .divisionByZero
  Logged.note (.dividing a.leadingExponent b.leadingExponent)
  let found := (LongDivision.ofDivision a b precision).found.reverse
  found.forM fun t => Logged.note (.quotientTerm t)
  return ofTerms found

def divRem (a b : SparsePoly) (precision : Nat) : Logged (SparsePoly × SparsePoly) := do
  let q ← quotient a b precision
  let product ← Logged.ofExcept (q.mul? b)
  return (q, a - product)

end SparsePoly
end DecimalPoly
