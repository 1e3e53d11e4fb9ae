import DecimalPoly.SparsePoly.Basic
import DecimalPoly.Intake

/-! Products and powers. A product exists if no two exponents of its factors pass the limit; of the
pairs that do, the first one is blamed, by the terms of the left factor and then of the right. -/
namespace DecimalPoly.SparsePoly

def pairs (p q : SparsePoly) : List (Term × Term) :=
  p.support.flatMap fun s => q.support.map fun t => (s, t)

def mul? (p q : SparsePoly) : Except Failure SparsePoly :=
  let ps := pairs p q
  match ps.find? fun (s, t) => maxExponent < s.exponent + t.exponent with
  | some (s, t) => .error (.exponentOverflow s.exponent t.exponent)
  | none => .ok (ofTerms (ps.filterMap fun (s, t) => s.mul? t))

def scalarMul (p : SparsePoly) (c : Decimal) : SparsePoly :=
  ofTerms (p.support.map fun t => { t with coefficient := t.coefficient * c })

/-- `acc * square ^ n` by repeated squaring. The square is taken once more only if bits of `n`
remain. -/
def powFrom (acc square : SparsePoly) (n : Nat) : Except Failure SparsePoly :=
  if h : n = 0 then .ok acc
  else do
    let acc ← if n % 2 = 1 then acc.mul? square else .ok acc
    if n / 2 = 0 then .ok acc
    else powFrom acc (← square.mul? square) (n / 2)
termination_by n

def pow? (p : SparsePoly) (n : Nat) : Except Failure SparsePoly := powFrom 1 p n

def product? (ps : List SparsePoly) : Except Failure SparsePoly := ps.foldlM mul? 1

def mul (p q : SparsePoly) : Except Violation SparsePoly := Demand.product.of (p.mul? q)
def pow (p : SparsePoly) (n : Nat) : Except Violation SparsePoly := Demand.power.of (p.pow? n)
def product (ps : List SparsePoly) : Except Violation SparsePoly := Demand.product.of (product? ps)

end DecimalPoly.SparsePoly
