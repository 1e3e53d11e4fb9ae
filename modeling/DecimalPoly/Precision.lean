/-! The precision of divisions that name none. It is settled at the first such division, or anew
whenever it is set, and an environment variable with a valid value wins at that moment. Changes of
the variable in between have no effect. -/
namespace DecimalPoly

def variableName : String := "SPARSE_POLYNOMIAL_DIVISION_PRECISION"
def defaultPrecision : Nat := 28
def maxWord : Nat := 18446744073709551615

/-- A word of 64 bits in digits, after at most one plus sign. -/
def readWord? (s : String) : Option Nat :=
  let digits := match s.toList with
    | '+' :: cs => cs
    | cs => cs
  let n := Nat.ofDigitChars 10 digits 0
  if digits ≠ [] ∧ digits.all Char.isDigit ∧ n ≤ maxWord then some n else none

/-- The value of the variable if it is set, and the precision once it is settled. -/
structure Settings where
  environment : Option String
  settled : Option Nat
deriving DecidableEq

namespace Settings

def initial : Settings := ⟨none, none⟩

/-- The precision that would be settled now, with `requested` if the variable does not say. -/
def resolve (s : Settings) (requested : Nat) : Nat :=
  max 1 ((s.environment.bind readWord?).getD requested)

inductive Action where
  | setEnvironment (value : Option String)
  | setPrecision (n : Nat)
  | divide (explicit : Option Nat)
deriving DecidableEq

def act (s : Settings) : Action → Settings
  | .setEnvironment value => { s with environment := value }
  | .setPrecision n => { s with settled := some (s.resolve n) }
  | .divide (some _) => s
  | .divide none => { s with settled := some (s.settled.getD (s.resolve defaultPrecision)) }

def precisionFor (s : Settings) (explicit : Option Nat) : Nat :=
  explicit.getD (s.settled.getD (s.resolve defaultPrecision))

end Settings
end DecimalPoly
