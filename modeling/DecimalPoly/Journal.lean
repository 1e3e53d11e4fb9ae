import DecimalPoly.Intake
import DecimalPoly.Term.Basic

/-! Records that reading and dividing make on their way. A computation keeps the records that it
made before it failed. -/
namespace DecimalPoly

inductive Level where
  | trace
  | debug
deriving DecidableEq

inductive Record where
  | parsedTerm (t : Term)
  | parsedText (count : Nat) (text : String)
  | dividing (dividend divisor : Nat)
  | quotientTerm (t : Term)
deriving DecidableEq

namespace Record

def level : Record → Level
  | .parsedTerm _ | .quotientTerm _ => .trace
  | .parsedText .. | .dividing .. => .debug

def message : Record → String
  | .parsedTerm t => s!"parsed term {t.label}"
  | .parsedText n s => s!"parsed {n} term(s) from {Text.quoted s}"
  | .dividing m n => s!"dividing polynomial of degree {m} by one of degree {n}"
  | .quotientTerm t => s!"quotient term {t.coefficient}·x^{t.exponent}"

def line (r : Record) : Level × String := (r.level, r.message)

end Record

structure Logged (α : Type) where
  records : List Record
  outcome : Except Failure α

instance : Monad Logged where
  pure a := ⟨[], .ok a⟩
  map f x := ⟨x.records, x.outcome.map f⟩
  bind x f :=
    match x.outcome with
    | .error e => ⟨x.records, .error e⟩
    | .ok a =>
      let y := f a
      ⟨x.records ++ y.records, y.outcome⟩

namespace Logged

def ofExcept {α : Type} (x : Except Failure α) : Logged α := ⟨[], x⟩
def fail {α : Type} (e : Failure) : Logged α := ofExcept (.error e)
def note (r : Record) : Logged Unit := ⟨[r], .ok ()⟩

end Logged
end DecimalPoly
