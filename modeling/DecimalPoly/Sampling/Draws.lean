import DecimalPoly.SparsePoly.Basic

/-! Random polynomials. A draw fixes one term: a mantissa of at most a million in magnitude, up to
three decimal places, and an exponent up to a limit. -/
namespace DecimalPoly.Sampling

structure Draw (limit : Nat) where
  mantissa : Fin 2000001
  scale : Fin 4
  exponent : Fin (limit + 1)

def Draw.term {limit : Nat} (h : limit ≤ maxExponent) (d : Draw limit) : Term where
  coefficient := Decimal.ofScaled ((d.mantissa : Nat) - 1000000 : Int) d.scale
  exponent := d.exponent
  exponent_le := Nat.le_trans (Nat.le_of_lt_succ d.exponent.2) h

def ofDraws {limit : Nat} (h : limit ≤ maxExponent) (ds : List (Draw limit)) : SparsePoly :=
  SparsePoly.ofTerms (ds.map (Draw.term h))

variable {Gen : Type} [RandomGen Gen]

def drawBelow (n : Nat) : StateM Gen (Fin (n + 1)) := fun g =>
  let (k, g) := randNat g 0 n
  (⟨min k n, Nat.lt_succ_of_le (Nat.min_le_right ..)⟩, g)

def draw (limit : Nat) : StateM Gen (Draw limit) := do
  let mantissa ← drawBelow 2000000
  let scale ← drawBelow 3
  let exponent ← drawBelow limit
  return ⟨mantissa, scale, exponent⟩

def draws (limit : Nat) : Nat → StateM Gen (List (Draw limit))
  | 0 => return []
  | n + 1 => do
    let d ← draw limit
    let ds ← draws limit n
    return d :: ds

def randomPolynomial {limit : Nat} (h : limit ≤ maxExponent) (count : Nat) (g : Gen) : SparsePoly :=
  ofDraws h ((draws limit count).run g).1

end DecimalPoly.Sampling
