import DecimalPoly.Proofs.Plain.Arithmetic
import DecimalPoly.Proofs.Plain.Notation
import DecimalPoly.Proofs.SparsePoly.NormalForm
import DecimalPoly.Proofs.Text.Monomial

/-! The text of a row: five layouts of an entry by its exponent and by whether its coefficient is one,
and four signs by the place of the entry and the sign of its coefficient. On rows of polynomials it is
the text of the polynomial. -/
namespace DecimalPoly.Plain
open Reader

def Entry.unsignedChars (t : Entry) : List Char :=
  let magnitude := t.coefficient.abs
  match t.exponent, magnitude.isOne with
  | 0, _ => magnitude.toChars
  | 1, true => ['x']
  | 1, false => magnitude.toChars ++ ['x']
  | e, true => 'x' :: '^' :: Nat.toDigits 10 e
  | e, false => magnitude.toChars ++ 'x' :: '^' :: Nat.toDigits 10 e

def signChars (place : Nat) (negative : Bool) : List Char :=
  match place, negative with
  | 0, false => []
  | 0, true => ['-', ' ']
  | _, false => [' ', '+', ' ']
  | _, true => [' ', '-', ' ']

namespace Row

def entriesFrom (place : Nat) (r : Row) : List Char :=
  (r.zipIdx place).flatMap fun entry =>
    signChars entry.2 (entry.1.coefficient.mantissa < 0) ++ entry.1.unsignedChars

def toChars (r : Row) : Except Halt (List Char) := do
  return if ← r.isZero then ['0'] else r.entriesFrom 0

end Row

theorem Entry.unsignedChars_ofTerm (t : Term) : (Entry.ofTerm t).unsignedChars = t.unsignedChars := by
  have hmagnitude : (Number.ofDecimal t.coefficient).abs.toChars = t.coefficient.unsignedChars := by
    rw [Number.abs_ofDecimal, Number.toChars_ofDecimal, Decimal.toChars_abs]
  have hone : (Number.ofDecimal t.coefficient).abs.isOne = decide (t.coefficient.abs = 1) := by
    rw [Bool.eq_iff_iff, Number.abs_ofDecimal, Number.isOne_ofDecimal, decide_eq_true_eq]
  rw [unsignedChars, Term.unsignedChars]
  simp only [ofTerm, hmagnitude, hone, Decimal.toChars_abs]
  by_cases h : t.coefficient.abs = 1
  · simp only [h, decide_true, if_true, List.nil_append]
    split <;> simp_all
  · simp only [h, decide_false, if_false]
    split <;> simp_all

theorem signChars_zero (t : Term) :
    signChars 0 (t.coefficient.mantissa < 0) = SparsePoly.leadingSign t := by
  rw [SparsePoly.leadingSign, Decimal.isNegative]
  cases decide (t.coefficient.mantissa < 0) with
  | false => rfl
  | true => rfl

theorem signChars_succ (place : Nat) (t : Term) :
    signChars (place + 1) (t.coefficient.mantissa < 0) = SparsePoly.joiningSign t := by
  rw [SparsePoly.joiningSign, Decimal.isNegative]
  cases decide (t.coefficient.mantissa < 0) with
  | false => rfl
  | true => rfl

namespace Row

theorem entriesFrom_succ (ts : List Term) (place : Nat) : entriesFrom (place + 1) (ofTerms ts) =
    ts.flatMap fun t => SparsePoly.joiningSign t ++ t.unsignedChars := by
  induction ts generalizing place with
  | nil => rfl
  | cons t ts ih =>
    rw [List.flatMap_cons, ← ih (place + 1), ← signChars_succ place t, ← Entry.unsignedChars_ofTerm]
    rfl

theorem toChars_row (p : SparsePoly) : p.row.toChars = .ok p.toChars := by
  rw [toChars, SparsePoly.isZero_row]
  change Except.ok (if p.isZero = true then _ else _) = _
  rw [SparsePoly.toChars, SparsePoly.isZero]
  cases hs : p.support with
  | nil => rfl
  | cons t ts =>
    have hne : p ≠ 0 := by
      rintro rfl
      cases hs
    have hfirst : entriesFrom 0 (ofTerms (t :: ts)) = signChars 0 (t.coefficient.mantissa < 0) ++
        (Entry.ofTerm t).unsignedChars ++ entriesFrom 1 (ofTerms ts) := rfl
    rw [SparsePoly.row_of_ne_zero hne, hs, hfirst, signChars_zero, Entry.unsignedChars_ofTerm,
      entriesFrom_succ]
    rfl

end Row
end DecimalPoly.Plain
