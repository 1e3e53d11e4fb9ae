import DecimalPoly.Binary64
import DecimalPoly.Term.Basic
import DecimalPoly.Text.Quoted

/-! What polynomials are built from: integers of any size, doubles and decimals, terms of such numbers
that are not yet checked, and texts; how decimals, exponents and terms are made of them; why a
computation has no result, and how that is said. Where success is demanded, a failure breaks the
demand. -/
namespace DecimalPoly

inductive Scalar where
  | integer (n : Int)
  | double (x : Binary64)
  | decimal (d : Decimal)
deriving DecidableEq

namespace Scalar

def text : Scalar → String
  | .integer n => (Decimal.ofInt n).text
  | .double x => x.text
  | .decimal d => d.text

instance : ToString Scalar := ⟨text⟩

end Scalar

structure RawTerm where
  coefficient : Scalar
  exponent : Scalar
deriving DecidableEq

def RawTerm.text (t : RawTerm) : String := s!"({t.coefficient}, {t.exponent})"

inductive Source where
  | scalar (s : Scalar)
  | terms (ts : List RawTerm)
  | text (s : String)
deriving DecidableEq

def Source.describe : Source → String
  | .scalar s => s!"scalar {s}"
  | .terms ts => "terms [" ++ String.intercalate ", " (ts.map RawTerm.text) ++ "]"
  | .text s => "text " ++ Text.quoted s

inductive ArgumentFault where
  | notFinite (x : Binary64)
  | notInteger (d : Decimal)
  | outOfRange (d : Decimal)
  | notExponent (s : Scalar)
  | unusable (s : Source)
deriving DecidableEq

def ArgumentFault.message : ArgumentFault → String
  | .notFinite x => s!"{x} is not a finite number"
  | .notInteger d => s!"{d} is not an integer"
  | .outOfRange d => s!"{d} is out of range for u32"
  | .notExponent s => s!"exponent {s} is not a non-negative integer"
  | .unusable s => "cannot build a polynomial from " ++ s.describe

inductive Failure where
  | invalidArgument (fault : ArgumentFault)
  /-- A term, by the texts of its two parts. -/
  | invalidTerm (coefficient exponent : String)
  /-- A character out of place, with its offset in bytes. -/
  | invalidCharacter (c : Char) (position : Nat)
  | invalidNumber (written : String)
  /-- The exponents of two terms whose product is out of range. -/
  | exponentOverflow (left right : Nat)
  | divisionByZero
deriving DecidableEq

namespace Failure

def message : Failure → String
  | .invalidArgument fault => "invalid argument: " ++ fault.message
  | .invalidTerm c e => s!"invalid term ({c}, {e}): exponent must be a non-negative integer"
  | .invalidCharacter c n => s!"invalid character {Text.quotedChar c} at position {n}"
  | .invalidNumber s => s!"invalid number {Text.quoted s}"
  | .exponentOverflow l r => s!"product of x^{l} and x^{r} has an exponent beyond u32::MAX"
  | .divisionByZero => "division by the zero polynomial"

def label : Failure → String
  | .invalidArgument fault => s!"InvalidArgument({Text.quoted fault.message})"
  | .invalidTerm c e =>
    s!"InvalidTerm \x7b coefficient: {Text.quoted c}, exponent: {Text.quoted e} \x7d"
  | .invalidCharacter c n =>
    s!"InvalidCharacter \x7b character: {Text.quotedChar c}, position: {n} \x7d"
  | .invalidNumber s => s!"InvalidNumber({Text.quoted s})"
  | .exponentOverflow l r => s!"ExponentOverflow \x7b left: {l}, right: {r} \x7d"
  | .divisionByZero => "DivisionByZeroPolynomial"

end Failure

/-- Operations that are called only where they should succeed. -/
inductive Demand where
  | product
  | power
  | quotient
deriving DecidableEq

def Demand.text : Demand → String
  | .product => "product exponents should fit in u32"
  | .power => "exponent of the power should fit in u32"
  | .quotient => "divisor should be non-zero"

structure Violation where
  demand : Demand
  failure : Failure
deriving DecidableEq

def Violation.message (v : Violation) : String := v.demand.text ++ ": " ++ v.failure.label

def Demand.of {α : Type} (d : Demand) (x : Except Failure α) : Except Violation α :=
  x.mapError fun e => ⟨d, e⟩

def Decimal.read (s : String) : Except Failure Decimal :=
  (Decimal.ofText? s).elim (.error (.invalidNumber s)) .ok

/-- A double means its shortest decimal. -/
def Scalar.toDecimal : Scalar → Except Failure Decimal
  | .integer n => .ok (Decimal.ofInt n)
  | .decimal d => .ok d
  | .double x => x.toDecimal?.elim (.error (.invalidArgument (.notFinite x))) .ok

def Decimal.toExponent (d : Decimal) : Except Failure Exponent :=
  if d.isInteger then
    if h : d.mantissa.toNat ≤ maxExponent ∧ 0 ≤ d.mantissa then .ok ⟨d.mantissa.toNat, h.1⟩
    else .error (.invalidArgument (.outOfRange d))
  else .error (.invalidArgument (.notInteger d))

/-- A term needs a finite coefficient and an exponent in range; any fault blames the whole term. -/
def RawTerm.toTerm (raw : RawTerm) : Except Failure Term :=
  let term : Except Failure Term := do
    let c ← raw.coefficient.toDecimal
    let d ← raw.exponent.toDecimal
    return Term.ofExponent c (← d.toExponent)
  term.mapError fun _ => .invalidTerm raw.coefficient.text raw.exponent.text

def Term.toRaw (t : Term) : RawTerm :=
  ⟨.decimal t.coefficient, .integer t.exponent⟩

end DecimalPoly
