import DecimalPoly.Decimal.Text
import DecimalPoly.Decimal.Division

/-! Double precision numbers as 64-bit words. A word is read into its class by exact arithmetic on
its three fields, and no floating point operation takes part. Its decimal is the shortest: of the
decimals that round to it, one with the fewest digits, of these the nearest, and of two equally near
the larger. Grids of 1, 2, … 17 digits are tried in turn, and on each only the two neighbours of the
number matter. It is written with the digits of that decimal, with a point in them always unless a
power of ten follows, which is so from `1e16` on and below `1e-4`. -/
namespace DecimalPoly

structure Binary64 where
  bits : UInt64
deriving DecidableEq

namespace Binary64

def isNegative (x : Binary64) : Bool := 0x8000000000000000 ≤ x.bits.toNat
def exponentField (x : Binary64) : Nat := x.bits.toNat / 0x10000000000000 % 0x800
def fractionField (x : Binary64) : Nat := x.bits.toNat % 0x10000000000000

/-- What a word stands for, up to its sign. `narrow` marks a finite number whose lower neighbour is
half as far away as the upper one. -/
inductive Magnitude where
  | nan
  | infinite
  | finite (significand : Nat) (exponent : Int) (narrow : Bool)

def magnitude (x : Binary64) : Magnitude :=
  let e := x.exponentField
  let f := x.fractionField
  if e = 0x7ff then (if f = 0 then .infinite else .nan)
  else if e = 0 then .finite f (-1074) false
  else .finite (0x10000000000000 + f) ((e : Int) - 1075) (f = 0 ∧ 1 < e)

/-- The numbers that round to `mid / unit`: from `low / unit` to `high / unit`, with the ends in it
if `closed`. -/
structure Interval where
  low : Nat
  mid : Nat
  high : Nat
  unit : Nat
  closed : Bool

namespace Interval

/-- Quarters of a significand step are fine enough for both ends, also where the step changes. -/
def around (significand : Nat) (exponent : Int) (narrow : Bool) : Interval :=
  let up := Nat.pow 2 (exponent - 2).toNat
  { low := (4 * significand - if narrow then 1 else 2) * up
    mid := 4 * significand * up
    high := (4 * significand + 2) * up
    unit := Nat.pow 2 (2 - exponent).toNat
    closed := significand % 2 = 0 }

def scaled (r : Interval) (place : Int) : Interval :=
  let factor := tenPow (-place).toNat
  { low := r.low * factor, mid := r.mid * factor, high := r.high * factor
    unit := r.unit * tenPow place.toNat, closed := r.closed }

def contains (r : Interval) (n : Nat) : Bool :=
  if r.closed then r.low ≤ n * r.unit ∧ n * r.unit ≤ r.high
  else r.low < n * r.unit ∧ n * r.unit < r.high

/-- The integer of the interval nearest to its middle, if one of the two next to it is in it. -/
def nearest? (r : Interval) : Option Nat :=
  let n := r.mid / r.unit
  match r.contains n, r.contains (n + 1) with
  | true, true => if 2 * (r.mid % r.unit) < r.unit then some n else some (n + 1)
  | true, false => some n
  | false, true => some (n + 1)
  | false, false => none

/-- The number of digits of the middle before the point, negative for zeros that follow it. -/
def pointPlace (r : Interval) : Int :=
  let gap : Int := Decimal.numDigits r.mid - Decimal.numDigits r.unit
  let r := r.scaled gap
  if r.unit ≤ r.mid then gap + 1 else gap

def shortest? (r : Interval) : Option Decimal :=
  let point := r.pointPlace
  (List.range 17).findSome? fun (i : Nat) =>
    let place := point - ((i : Int) + 1)
    (r.scaled place).nearest?.map fun (n : Nat) => Decimal.ofSignedScale n (-place)

end Interval

def exact (significand : Nat) (exponent : Int) : Decimal :=
  Decimal.ofScaled (significand * Nat.pow 2 exponent.toNat * Nat.pow 5 (-exponent).toNat)
    (-exponent).toNat

/-- The shortest decimal that rounds to a finite `x`. Both zeros give zero. -/
def toDecimal? (x : Binary64) : Option Decimal :=
  match x.magnitude with
  | .nan | .infinite => none
  | .finite 0 _ _ => some 0
  | .finite significand exponent narrow =>
    let d := (Interval.around significand exponent narrow).shortest?.getD
      (exact significand exponent)
    some (if x.isNegative then -d else d)

/-- The digits of `d` without zeros at their end, and the number of its digits before the point. -/
def significantDigits (d : Decimal) : List Char × Int :=
  let digits := Nat.toDigits 10 d.mantissa.natAbs
  ((digits.reverse.dropWhile (· = '0')).reverse, (digits.length : Int) - d.scale)

def pointed : List Char → List Char
  | c :: c' :: cs => c :: '.' :: c' :: cs
  | cs => cs

def scientificChars (d : Decimal) : List Char :=
  let (digits, point) := significantDigits d
  pointed digits ++ 'e' :: (Decimal.ofInt (point - 1)).toChars

def unsignedChars (d : Decimal) : List Char :=
  let point := (significantDigits d).2
  if d ≠ 0 ∧ (point ≤ -4 ∨ 16 < point) then scientificChars d
  else d.unsignedChars ++ (if d.isInteger then ['.', '0'] else [])

def text (x : Binary64) : String :=
  let sign := if x.isNegative then "-" else ""
  match x.toDecimal?, x.magnitude with
  | some d, _ => sign ++ String.ofList (unsignedChars d.abs)
  | none, .infinite => sign ++ "inf"
  | none, _ => "NaN"

instance : ToString Binary64 := ⟨text⟩

end Binary64
end DecimalPoly
