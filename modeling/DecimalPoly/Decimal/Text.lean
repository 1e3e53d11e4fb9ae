import DecimalPoly.Decimal.Basic

/-! Positional notation. `toChars` writes a decimal in its one shortest form; `ofChars?` reads an
optional sign, digits and at most one point, and needs at least one digit. Digits are the ten of
ASCII, and no more of them are read behind the point than a scale of 32 bits can count. -/
namespace DecimalPoly

def maxScale : Nat := 4294967295

namespace Decimal

/-- Digits with a point in front of the last `scale` of them, padded so that one stands before it. -/
def positional (digits : List Char) (scale : Nat) : List Char :=
  let padded := digits.leftpad (scale + 1) '0'
  let cut := padded.length - scale
  if scale = 0 then padded else padded.take cut ++ '.' :: padded.drop cut

def unsignedChars (d : Decimal) : List Char :=
  positional (Nat.toDigits 10 d.mantissa.natAbs) d.scale

def toChars (d : Decimal) : List Char :=
  if d.isNegative then '-' :: d.unsignedChars else d.unsignedChars

def text (d : Decimal) : String := String.ofList d.toChars

instance : ToString Decimal := ⟨text⟩

def label (d : Decimal) : String := s!"Decimal({d})"

/-- Whether a minus sign leads, and what follows the sign if there is one. -/
def splitSign : List Char → Bool × List Char
  | '-' :: cs => (true, cs)
  | '+' :: cs => (false, cs)
  | cs => (false, cs)

def fraction (cs : List Char) : List Char := (cs.dropWhile (· ≠ '.')).drop 1

def ofUnsignedChars? (cs : List Char) : Option Decimal :=
  let digits := cs.takeWhile (· ≠ '.') ++ fraction cs
  if digits ≠ [] ∧ digits.all Char.isDigit ∧ (fraction cs).length ≤ maxScale then
    some (ofScaled (Nat.ofDigitChars 10 digits 0) (fraction cs).length)
  else none

def ofChars? (cs : List Char) : Option Decimal :=
  let (negative, body) := splitSign cs
  (ofUnsignedChars? body).map fun d => if negative then -d else d

def ofText? (s : String) : Option Decimal := ofChars? s.toList

end Decimal
end DecimalPoly
