import DecimalPoly.SparsePoly.Reader

/-! Polynomials from numbers, terms and texts as they are handed in, and questions asked with such
numbers. -/
namespace DecimalPoly

def Logged.mapFailure {α : Type} (f : Failure → Failure) (x : Logged α) : Logged α :=
  ⟨x.records, x.outcome.mapError f⟩

namespace SparsePoly

def ofScalar (s : Scalar) : Except Failure SparsePoly := constant <$> s.toDecimal

def ofRawTerms (raws : List RawTerm) : Except Failure SparsePoly :=
  ofTerms <$> raws.mapM RawTerm.toTerm

/-- Whatever the fault, the source as a whole is blamed. -/
def ofSource (s : Source) : Logged SparsePoly :=
  let built := match s with
    | .scalar x => Logged.ofExcept (ofScalar x)
    | .terms raws => Logged.ofExcept (ofRawTerms raws)
    | .text t => read t
  built.mapFailure fun _ => .invalidArgument (.unusable s)

def evaluateAt (p : SparsePoly) (x : Scalar) : Except Failure Decimal := p.evaluate <$> x.toDecimal

/-- No term has an exponent past the limit, so the coefficient there is zero. -/
def coefficientAt (p : SparsePoly) (exponent : Scalar) : Except Failure Decimal :=
  match exponent.toDecimal with
  | .error _ => .error (.invalidArgument (.notExponent exponent))
  | .ok e =>
    if e.isNegative ∨ ¬ e.isInteger then .error (.invalidArgument (.notExponent exponent))
    else .ok (p.coefficient e.mantissa.toNat)

end SparsePoly
end DecimalPoly
