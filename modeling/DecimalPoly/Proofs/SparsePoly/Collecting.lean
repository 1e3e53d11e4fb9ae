import DecimalPoly.Proofs.Plain.Arithmetic
import DecimalPoly.Proofs.SparsePoly.Ring

/-! Operations that have a way of their own agree with the plain ones. A sum merges two descending lists
in one pass, where all terms could be collected; a change of sign leaves the form as it is, where the
negated terms could be collected or minus one multiplied with; a multiple is a product with a constant.
All this holds of zero too, with the one term that it shows. -/
namespace DecimalPoly.SparsePoly
open Polynomial

theorem ofTerms_append (ss ts : List Term) : ofTerms (ss ++ ts) = ofTerms ss + ofTerms ts :=
  value_injective (by rw [value_ofTerms, valueOf_append, value_add, value_ofTerms, value_ofTerms])

theorem ofTerms_neg (ts : List Term) : ofTerms (ts.map Term.neg) = -ofTerms ts :=
  value_injective (by rw [value_ofTerms, valueOf_neg, value_neg, value_ofTerms])

theorem add_eq_ofTerms (p q : SparsePoly) : p + q = ofTerms (p.terms ++ q.terms) := by
  rw [ofTerms_append, ofTerms_terms, ofTerms_terms]

theorem sub_eq_ofTerms (p q : SparsePoly) : p - q = ofTerms (p.terms ++ q.terms.map Term.neg) := by
  rw [ofTerms_append, ofTerms_neg, ofTerms_terms, ofTerms_terms, sub_eq_add_neg]

theorem neg_eq_ofTerms (p : SparsePoly) : -p = ofTerms (p.terms.map Term.neg) := by
  rw [ofTerms_neg, ofTerms_terms]

theorem neg_eq_scalarMul (p : SparsePoly) : -p = p.scalarMul (-1) := by
  apply value_injective
  rw [value_neg, value_scalarMul, Decimal.toRat_neg, Decimal.toRat_one, map_neg, map_one,
    mul_neg_one]

theorem value_constant (c : Decimal) : (constant c).value = C c.toRat := by
  rw [constant, value_ofTerm, Term.value, Term.constant, monomial_zero_left]

theorem mul?_constant (p : SparsePoly) (c : Decimal) : p.mul? (constant c) = .ok (p.scalarMul c) := by
  have hexponent : (constant c).leadingExponent = 0 := by
    rw [← natDegree_value, value_constant, natDegree_C]
  rw [mul?_eq_ok_iff, hexponent, value_constant, value_scalarMul]
  exact ⟨p.leadingExponent_le, rfl⟩

section Rows
open Plain

theorem canonicalize_append (ss ts : List Term) :
    Row.canonicalize (Row.ofTerms ss ++ Row.ofTerms ts) = (ofTerms (ss ++ ts)).row := by
  rw [← Row.canonicalize_ofTerms, Row.ofTerms, Row.ofTerms, ← List.map_append]
  rfl

theorem ofTerms_map_neg (ts : List Term) : Row.ofTerms (ts.map Term.neg) = (Row.ofTerms ts).neg := by
  rw [Row.neg, Row.ofTerms, Row.ofTerms, List.map_map, List.map_map]
  rfl

theorem add_row_eq (p q : SparsePoly) : p.row.add q.row = Row.canonicalize (p.row ++ q.row) := by
  rw [← row_add, add_eq_ofTerms, ← canonicalize_append]
  rfl

theorem sub_row_eq (p q : SparsePoly) : p.row.sub q.row = Row.canonicalize (p.row ++ q.row.neg) := by
  rw [← row_sub, sub_eq_ofTerms, ← canonicalize_append, ofTerms_map_neg]
  rfl

theorem neg_row_eq (p : SparsePoly) : p.row.neg = Row.canonicalize p.row.neg := by
  conv_lhs => rw [← row_neg, neg_eq_ofTerms, ← Row.canonicalize_ofTerms, ofTerms_map_neg]
  rfl

theorem neg_row_eq_scalarMul (p : SparsePoly) : p.row.neg = p.row.scalarMul (.ofInt (-1)) := by
  rw [← row_neg, neg_eq_scalarMul, row_scalarMul]
  rfl

theorem constant_row (c : Decimal) :
    Row.canonicalize [⟨.ofDecimal c, 0⟩] = (constant c).row := Row.canonicalize_ofTerm (.constant c)

end Rows

/-- Each way of its own comes to what collecting terms comes to, or a product. So it is with rows of
terms, whose form no type ensures, as long as they are canonical. -/
theorem direct_paths :
    (∀ (p q : SparsePoly) (c : Decimal),
      p + q = ofTerms (p.terms ++ q.terms) ∧
      p - q = ofTerms (p.terms ++ q.terms.map Term.neg) ∧
      -p = p.scalarMul (-1) ∧ -p = ofTerms (p.terms.map Term.neg) ∧
      p.mul? (constant c) = .ok (p.scalarMul c) ∧ (constant c).mul? p = .ok (p.scalarMul c)) ∧
    ∀ (r s : Plain.Row) (c : Plain.Number), r.Canonical → s.Canonical → c.Lowest →
      let constant := Plain.Row.canonicalize [⟨c, 0⟩]
      r.add s = Plain.Row.canonicalize (r ++ s) ∧
      r.sub s = Plain.Row.canonicalize (r ++ s.neg) ∧
      r.neg = r.scalarMul (.ofInt (-1)) ∧ r.neg = Plain.Row.canonicalize r.neg ∧
      r.mul? constant = .ok (r.scalarMul c) ∧ constant.mul? r = .ok (r.scalarMul c) := by
  refine ⟨fun p q c => ?_, fun r s c hr hs hc => ?_⟩
  · exact ⟨add_eq_ofTerms p q, sub_eq_ofTerms p q, neg_eq_scalarMul p, neg_eq_ofTerms p,
      mul?_constant p c, mul?_comm.mp (mul?_constant p c)⟩
  · obtain ⟨p, rfl⟩ := hr.exists_row
    obtain ⟨q, rfl⟩ := hs.exists_row
    obtain ⟨c, rfl⟩ := hc.exists_decimal
    refine ⟨add_row_eq p q, sub_row_eq p q, neg_row_eq_scalarMul p, neg_row_eq p, ?_, ?_⟩
    · rw [constant_row, row_mul?, mul?_constant]
      exact congrArg Except.ok (row_scalarMul p c)
    · rw [constant_row, row_mul?, mul?_comm.mp (mul?_constant p c)]
      exact congrArg Except.ok (row_scalarMul p c)

/-- Two rows whose exponents interleave, meet and cancel, and the row of zero. -/
theorem direct_paths_interleaved :
    let r : Plain.Row := [⟨⟨1, 0⟩, 5⟩, ⟨⟨5, 1⟩, 2⟩, ⟨⟨-3, 0⟩, 1⟩]
    let s : Plain.Row := [⟨⟨-1, 0⟩, 5⟩, ⟨⟨3, 0⟩, 4⟩, ⟨⟨5, 1⟩, 2⟩, ⟨⟨7, 0⟩, 0⟩]
    let c : Plain.Number := ⟨25, 2⟩
    let constant := Plain.Row.canonicalize [⟨c, 0⟩]
    let zero := Plain.Row.zero
    r.Canonical ∧ s.Canonical ∧ c.Lowest ∧ zero.Canonical ∧
      r.add s = [⟨⟨3, 0⟩, 4⟩, ⟨⟨1, 0⟩, 2⟩, ⟨⟨-3, 0⟩, 1⟩, ⟨⟨7, 0⟩, 0⟩] ∧
      r.add s = Plain.Row.canonicalize (r ++ s) ∧ r.sub s = Plain.Row.canonicalize (r ++ s.neg) ∧
      r.mul? constant = .ok (r.scalarMul c) ∧ constant.mul? r = .ok (r.scalarMul c) ∧
      zero.neg = zero ∧ zero.neg = zero.scalarMul (.ofInt (-1)) ∧
      zero.neg = Plain.Row.canonicalize zero.neg := by
  intro r s c constant zero
  have hr : r.Canonical := ⟨.inr ⟨by decide, by simp [r, Plain.Row.Descending], by decide⟩,
    by decide, by decide⟩
  have hs : s.Canonical := ⟨.inr ⟨by decide, by simp [s, Plain.Row.Descending], by decide⟩,
    by decide, by decide⟩
  have hc : c.Lowest := by decide
  have hzero : zero.Canonical := Plain.Row.canonical_zero
  obtain ⟨hadd, hsub, -, -, hmul, hmul'⟩ := direct_paths.2 r s c hr hs hc
  obtain ⟨-, -, hscale, hcollect, -⟩ := direct_paths.2 zero s c hzero hs hc
  exact ⟨hr, hs, hc, hzero, by decide +kernel, hadd, hsub, hmul, hmul', by decide, hscale, hcollect⟩

end DecimalPoly.SparsePoly
