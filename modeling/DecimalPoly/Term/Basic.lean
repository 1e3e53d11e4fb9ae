import DecimalPoly.Decimal.Text

/-! Terms `c·x^e`. The exponent is held to 32 bits, so a product of two terms may not exist. -/
namespace DecimalPoly

def maxExponent : Nat := 4294967295

abbrev Exponent := { n : Nat // n ≤ maxExponent }

structure Term where
  coefficient : Decimal
  exponent : Nat
  exponent_le : exponent ≤ maxExponent
deriving DecidableEq

namespace Term

theorem ext {s t : Term} (hc : s.coefficient = t.coefficient) (he : s.exponent = t.exponent) :
    s = t := by
  cases s; cases t; simp_all

def ofExponent (c : Decimal) (e : Exponent) : Term := ⟨c, e.1, e.2⟩

def constant (c : Decimal) : Term := ⟨c, 0, Nat.zero_le _⟩

def isZero (t : Term) : Bool := t.coefficient = 0

def neg (t : Term) : Term := { t with coefficient := -t.coefficient }

instance : Neg Term := ⟨neg⟩

def evaluate (t : Term) (x : Decimal) : Decimal := t.coefficient * x.pow t.exponent

/-- The product, unless its exponent is out of range. A zero coefficient is no excuse. -/
def mul? (s t : Term) : Option Term :=
  if h : s.exponent + t.exponent ≤ maxExponent then
    some ⟨s.coefficient * t.coefficient, s.exponent + t.exponent, h⟩
  else none

def derivative? (t : Term) : Option Term :=
  if t.exponent = 0 then none
  else some
    { coefficient := t.coefficient * Decimal.ofInt t.exponent
      exponent := t.exponent - 1
      exponent_le := Nat.le_trans (Nat.sub_le ..) t.exponent_le }

def compareDescending (s t : Term) : Ordering := compare t.exponent s.exponent

def label (t : Term) : String :=
  s!"Term \x7b coefficient: {t.coefficient.label}, exponent: {t.exponent} \x7d"

/-- The term without its sign. A coefficient of one is left out in front of `x`. -/
def unsignedChars (t : Term) : List Char :=
  let magnitude := t.coefficient.abs
  let factor := if magnitude = 1 then [] else magnitude.toChars
  match t.exponent with
  | 0 => magnitude.toChars
  | 1 => factor ++ ['x']
  | e => factor ++ ['x', '^'] ++ Nat.toDigits 10 e

end Term
end DecimalPoly
