import DecimalPoly.Decimal.Basic

/-! Division to a number of significant digits. The quotient is first cut off one or two digits
further than asked, with a flag for what was lost; then the extra digits are rounded away, a half to
the even neighbour. Quotients that end within the precision come out exact. -/
namespace DecimalPoly.Decimal

def numDigits (n : Nat) : Nat := (Nat.toDigits 10 n).length

/-- `value / 10 ^ dropped` to the nearest integer, a half to the even one. `sticky` says that the
number meant lies strictly between `value` and `value + 1`. -/
def roundHalfEven (value dropped : Nat) (sticky : Bool) : Nat :=
  let unit := tenPow dropped
  let kept := value / unit
  let twice := 2 * (value % unit)
  if twice < unit then kept
  else if unit < twice then kept + 1
  else if sticky || kept % 2 = 1 then kept + 1
  else kept

/-- A quotient cut off at `scale` places, which may be negative. -/
structure CutQuotient where
  digits : Nat
  inexact : Bool
  scale : Int

/-- The magnitude of `a / b` cut off where `precision + 1` digits or one more are left. -/
def cutQuotient (a b : Decimal) (precision : Nat) : CutQuotient :=
  let m := a.mantissa.natAbs
  let n := b.mantissa.natAbs
  let shift : Int := precision + 1 - (numDigits m - numDigits n)
  let numerator := m * tenPow shift.toNat
  let denominator := n * tenPow (-shift).toNat
  { digits := numerator / denominator
    inexact := numerator % denominator ≠ 0
    scale := shift + a.scale - b.scale }

def ofSignedScale (m s : Int) : Decimal := ofScaled (m * tenPow (-s).toNat) s.toNat

/-- `a / b` rounded to `precision` significant digits, at least one. Zero if either is zero. -/
def div (a b : Decimal) (precision : Nat) : Decimal :=
  if a = 0 ∨ b = 0 then 0 else
    let precision := max 1 precision
    let q := cutQuotient a b precision
    let dropped := numDigits q.digits - precision
    let rounded := roundHalfEven q.digits dropped q.inexact
    ofSignedScale (a.mantissa.sign * b.mantissa.sign * rounded) (q.scale - dropped)

def div? (a b : Decimal) (precision : Nat) : Option Decimal :=
  if b = 0 then none else some (a.div b precision)

end DecimalPoly.Decimal
