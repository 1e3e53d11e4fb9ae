import DecimalPoly.Proofs.Plain.Division
import DecimalPoly.Proofs.SparsePoly.Ring

/-! The form of a polynomial is a normal form of all lists of terms with one sum of coefficients at each
exponent. Two lists come to one polynomial if and only if these sums agree, and whatever is asked of a
polynomial is answered by its coefficients. The rows of terms that are shown give the same answers. -/
namespace DecimalPoly
open Polynomial

def coefficientSum (ts : List Term) (e : Nat) : ℚ :=
  ((ts.filter fun t => t.exponent = e).map fun t => t.coefficient.toRat).sum

theorem coefficientSum_cons (t : Term) (ts : List Term) (e : Nat) : coefficientSum (t :: ts) e =
    (if t.exponent = e then t.coefficient.toRat else 0) + coefficientSum ts e := by
  rw [coefficientSum, coefficientSum]
  by_cases h : t.exponent = e
  · rw [if_pos h, List.filter_cons_of_pos (by simpa using h), List.map_cons, List.sum_cons]
  · rw [if_neg h, List.filter_cons_of_neg (by simpa using h), zero_add]

theorem coeff_valueOf (ts : List Term) (e : Nat) : (valueOf ts).coeff e = coefficientSum ts e := by
  induction ts with
  | nil => rfl
  | cons t ts ih => rw [valueOf_cons, coeff_add, Term.coeff_value, ih, coefficientSum_cons]

theorem coefficientSum_perm {ss ts : List Term} (h : ss.Perm ts) :
    coefficientSum ss = coefficientSum ts := by
  funext e
  exact ((h.filter _).map _).sum_eq

namespace Plain

def Number.isOne (x : Number) : Bool := x.scale = 0 && x.mantissa = 1

theorem Number.isOne_ofDecimal (d : Decimal) : (ofDecimal d).isOne = true ↔ d = 1 := by
  rw [isOne, Bool.and_eq_true, decide_eq_true_eq, decide_eq_true_eq]
  constructor
  · intro h
    exact Decimal.ext h.2 h.1
  · intro h
    rw [h]
    exact ⟨rfl, rfl⟩

namespace Row

def coefficient (r : Row) (e : Nat) : Number :=
  match r.find? (·.exponent = e) with
  | some t => t.coefficient
  | none => .zero

def isZero (r : Row) : Except Halt Bool := do return (← r.leading).coefficient.isZero

def isOne (r : Row) : Except Halt Bool := do
  let first ← r.leading
  return first.exponent = 0 && first.coefficient.isOne

def degree? (r : Row) : Except Halt (Option Nat) := do
  let first ← r.leading
  return if first.coefficient.isZero then none else some first.exponent

end Row
end Plain

namespace SparsePoly
variable {p q : SparsePoly} {e : Nat}

theorem toRat_coefficient_ofTerms (ts : List Term) (e : Nat) :
    ((ofTerms ts).coefficient e).toRat = coefficientSum ts e := by
  rw [← coeff_value, value_ofTerms, coeff_valueOf]

theorem eq_iff_coefficient : p = q ↔ ∀ e, p.coefficient e = q.coefficient e :=
  ⟨fun h _ => by rw [h], eq_of_coefficient_eq⟩

theorem ofTerms_eq_iff {ss ts : List Term} :
    ofTerms ss = ofTerms ts ↔ ∀ e, coefficientSum ss e = coefficientSum ts e := by
  simp only [eq_iff_coefficient, ← Decimal.toRat_inj, toRat_coefficient_ofTerms]

section Queries

theorem isZero_iff_coefficient : p.isZero = true ↔ ∀ e, p.coefficient e = 0 :=
  isZero_iff.trans eq_iff_coefficient

theorem coefficient_one (e : Nat) : (1 : SparsePoly).coefficient e = if e = 0 then 1 else 0 := by
  by_cases he : e = 0
  · rw [if_pos he, he]
    rfl
  · have hlt : (1 : SparsePoly).leadingExponent < e := Nat.pos_of_ne_zero he
    rw [if_neg he, coefficient_eq_zero_of_lt hlt]

theorem isOne_iff_coefficient :
    p.isOne = true ↔ ∀ e, p.coefficient e = if e = 0 then 1 else 0 := by
  simp only [isOne, decide_eq_true_eq, eq_iff_coefficient, coefficient_one]

theorem degree?_eq_none_iff : p.degree? = none ↔ p = 0 := by
  rw [degree?, Option.map_eq_none_iff, List.head?_eq_none_iff]
  exact ⟨fun h => ext h, fun h => by rw [h]; rfl⟩

theorem degree?_eq_some_iff {d : Nat} : p.degree? = some d ↔
    p.coefficient d ≠ 0 ∧ ∀ e, d < e → p.coefficient e = 0 := by
  constructor
  · intro h
    have hp : p ≠ 0 := by
      intro hz
      rw [hz] at h
      cases h
    rw [degree?_eq_some hp, Option.some_inj] at h
    subst h
    rw [coefficient_leadingExponent hp]
    exact ⟨leadingCoefficient_ne_zero hp, fun e => coefficient_eq_zero_of_lt⟩
  · intro h
    obtain ⟨hd, habove⟩ := h
    have hp : p ≠ 0 := by
      intro hz
      rw [hz] at hd
      exact hd rfl
    have hle : d ≤ p.leadingExponent := by
      by_contra hlt
      exact hd (coefficient_eq_zero_of_lt (Nat.lt_of_not_le hlt))
    have hge : p.leadingExponent ≤ d := by
      by_contra hlt
      have hz := habove _ (Nat.lt_of_not_le hlt)
      rw [coefficient_leadingExponent hp] at hz
      exact leadingCoefficient_ne_zero hp hz
    rw [degree?_eq_some hp, Nat.le_antisymm hge hle]

end Queries

section Rows
open Plain

theorem leadingCoefficient_eq_zero_iff : p.leadingCoefficient = 0 ↔ p = 0 := by
  constructor
  · intro h
    by_contra hp
    exact leadingCoefficient_ne_zero hp h
  · intro hp
    rw [hp]
    rfl

theorem eq_one_iff : p = 1 ↔ p.leadingExponent = 0 ∧ p.leadingCoefficient = 1 := by
  constructor
  · intro h
    rw [h]
    exact ⟨rfl, rfl⟩
  · intro h
    obtain ⟨hexponent, hcoefficient⟩ := h
    have hp : p ≠ 0 := by
      intro hz
      rw [hz] at hcoefficient
      cases hcoefficient
    rw [eq_iff_coefficient]
    intro e
    rw [coefficient_one]
    by_cases he : e = 0
    · rw [if_pos he, he, ← hexponent, coefficient_leadingExponent hp, hcoefficient]
    · rw [if_neg he, coefficient_eq_zero_of_lt (by omega)]

theorem coefficient_row (p : SparsePoly) (e : Nat) :
    p.row.coefficient e = .ofDecimal (p.coefficient e) := by
  by_cases hp : p = 0
  · subst hp
    cases e with
    | zero => rfl
    | succ e => rfl
  · rw [row_of_ne_zero hp, Row.coefficient, Row.ofTerms, List.find?_map, coefficient]
    change (match (p.support.find? (·.exponent = e)).map Entry.ofTerm with
      | some t => t.coefficient
      | none => .zero) = _
    cases p.support.find? (·.exponent = e) with
    | some t => rfl
    | none => rfl

theorem isZero_row (p : SparsePoly) : p.row.isZero = .ok p.isZero := by
  have hfirst : (Number.ofDecimal p.leadingCoefficient).isZero = p.isZero := by
    rw [Bool.eq_iff_iff, Number.isZero_ofDecimal, leadingCoefficient_eq_zero_iff, isZero_iff]
  rw [Row.isZero, Row.leading_row]
  exact congrArg Except.ok hfirst

theorem isOne_row (p : SparsePoly) : p.row.isOne = .ok p.isOne := by
  have hfirst : (decide (p.leadingExponent = 0) && (Number.ofDecimal p.leadingCoefficient).isOne) =
      p.isOne := by
    rw [Bool.eq_iff_iff, Bool.and_eq_true, decide_eq_true_eq, Number.isOne_ofDecimal, ← eq_one_iff,
      isOne, decide_eq_true_eq]
  rw [Row.isOne, Row.leading_row]
  exact congrArg Except.ok hfirst

theorem degree?_row (p : SparsePoly) : p.row.degree? = .ok p.degree? := by
  have hfirst : (if (Number.ofDecimal p.leadingCoefficient).isZero then none
      else some p.leadingExponent) = p.degree? := by
    by_cases hp : p = 0
    · subst hp
      rfl
    · rw [if_neg (mt (Number.isZero_ofDecimal _).mp (leadingCoefficient_ne_zero hp)),
        degree?_eq_some hp]
  rw [Row.degree?, Row.leading_row]
  exact congrArg Except.ok hfirst

end Rows

/-- Terms in any order, with any repetitions and zeros among them, come to the polynomial whose
coefficients are their sums at each exponent, and to the same one only with the same sums. A polynomial
is the form of its own terms and is known by its coefficients, and so are its degree and whether it is
zero or one. On the rows of terms that are shown all this is computed alike. -/
theorem normal_form (ss ts : List Term) (p q : SparsePoly) :
    (∀ e, ((ofTerms ts).coefficient e).toRat = coefficientSum ts e) ∧
    (ofTerms ss = ofTerms ts ↔ ∀ e, coefficientSum ss e = coefficientSum ts e) ∧
    (ss.Perm ts → ofTerms ss = ofTerms ts) ∧
    ofTerms p.terms = p ∧
    (p = q ↔ ∀ e, p.coefficient e = q.coefficient e) ∧
    (p.isZero = true ↔ ∀ e, p.coefficient e = 0) ∧
    (p.isOne = true ↔ ∀ e, p.coefficient e = if e = 0 then 1 else 0) ∧
    (∀ d, p.degree? = some d ↔ p.coefficient d ≠ 0 ∧ ∀ e, d < e → p.coefficient e = 0) ∧
    (p.degree? = none ↔ ∀ e, p.coefficient e = 0) ∧
    Plain.Row.canonicalize (Plain.Row.ofTerms ts) = (ofTerms ts).row ∧
    (p.row = q.row ↔ p = q) ∧
    (∀ e, p.row.coefficient e = .ofDecimal (p.coefficient e)) ∧
    p.row.isZero = .ok p.isZero ∧ p.row.isOne = .ok p.isOne ∧ p.row.degree? = .ok p.degree? :=
  ⟨toRat_coefficient_ofTerms ts, ofTerms_eq_iff,
    fun h => ofTerms_eq_iff.mpr (congrFun (coefficientSum_perm h)), ofTerms_terms p,
    eq_iff_coefficient, isZero_iff_coefficient, isOne_iff_coefficient, fun _ => degree?_eq_some_iff,
    degree?_eq_none_iff.trans eq_iff_coefficient, Plain.Row.canonicalize_ofTerms ts,
    ⟨row_injective, congrArg row⟩, coefficient_row p, isZero_row p, isOne_row p, degree?_row p⟩

/-- Two halves of a square and two terms that cancel, in two orders and as the one term they make. -/
theorem normal_form_merging :
    let ss : List Term := [⟨.ofScaled 5 1, 2, by decide⟩, ⟨.ofInt 7, 1, by decide⟩,
      ⟨.ofScaled 5 1, 2, by decide⟩, ⟨.ofInt (-7), 1, by decide⟩, ⟨0, 9, by decide⟩]
    let p : SparsePoly := ⟨[⟨1, 2, by decide⟩], by simp [Descending], by decide⟩
    ss.reverse.Perm ss ∧ ofTerms ss.reverse = ofTerms ss ∧ ofTerms ss = ofTerms p.terms ∧
      (∀ e, coefficientSum ss e = coefficientSum p.terms e) ∧ ofTerms p.terms = p ∧
      p.coefficient 2 ≠ 0 ∧ (∀ e, 2 < e → p.coefficient e = 0) := by
  intro ss p
  have hperm : ss.reverse.Perm ss := List.reverse_perm ss
  have hmerge : ofTerms ss = ofTerms p.terms := by decide +kernel
  have hdegree : p.degree? = some 2 := by decide
  obtain ⟨-, -, horder, -⟩ := normal_form ss.reverse ss p p
  obtain ⟨-, hsums, -, hself, -, -, -, hdeg, -⟩ := normal_form ss p.terms p p
  exact ⟨hperm, horder hperm, hmerge, hsums.mp hmerge, hself, (hdeg 2).mp hdegree⟩

end SparsePoly
end DecimalPoly
