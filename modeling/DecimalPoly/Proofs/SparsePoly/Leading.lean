import DecimalPoly.Proofs.SparsePoly.Value
import Mathlib.Algebra.Polynomial.Degree.Lemmas

/-! Coefficients, leading terms and degrees of polynomials are those of the polynomials over the
rationals that they stand for. The zero polynomial shows the leading exponent 0. -/
namespace DecimalPoly.SparsePoly
open Polynomial

theorem coeff_value (p : SparsePoly) (e : Nat) : p.value.coeff e = (p.coefficient e).toRat := by
  rw [coefficient]
  split
  · next t ht =>
    obtain rfl : t.exponent = e := by simpa using List.find?_some ht
    exact coeff_valueOf_of_mem p.descending (List.mem_of_find?_eq_some ht)
  · next hno =>
    rw [Decimal.toRat_zero]
    apply coeff_valueOf_of_forall_ne
    simpa using hno

theorem coefficient_of_mem_terms {p : SparsePoly} {t : Term} (h : t ∈ p.terms) :
    p.coefficient t.exponent = t.coefficient := by
  apply Decimal.toRat_injective
  rw [← coeff_value, ← valueOf_terms]
  exact coeff_valueOf_of_mem p.descending_terms h

theorem coefficient_of_mem {p : SparsePoly} {t : Term} (h : t ∈ p.support) :
    p.coefficient t.exponent = t.coefficient := coefficient_of_mem_terms (mem_terms_of_mem_support h)

theorem coefficient_eq_zero {p : SparsePoly} {e : Nat} (h : ∀ t ∈ p.support, t.exponent ≠ e) :
    p.coefficient e = 0 := by
  rw [← Decimal.toRat_eq_zero, ← coeff_value]
  exact coeff_valueOf_of_forall_ne h

theorem coefficient_ne_zero_iff {p : SparsePoly} {e : Nat} :
    p.coefficient e ≠ 0 ↔ ∃ t ∈ p.support, t.exponent = e := by
  constructor
  · intro h
    by_contra hno
    push Not at hno
    exact h (coefficient_eq_zero hno)
  · rintro ⟨t, ht, rfl⟩
    rw [coefficient_of_mem ht]
    exact p.nonzero t ht

theorem eq_of_coefficient_eq {p q : SparsePoly} (h : ∀ e, p.coefficient e = q.coefficient e) :
    p = q := by
  apply value_injective
  ext e
  rw [coeff_value, coeff_value, h]

@[simp] theorem coefficient_sub (p q : SparsePoly) (e : Nat) :
    (p - q).coefficient e = p.coefficient e - q.coefficient e := by
  apply Decimal.toRat_injective
  rw [← coeff_value, value_sub, coeff_sub, coeff_value, coeff_value, Decimal.toRat_sub]

theorem isZero_iff {p : SparsePoly} : p.isZero = true ↔ p = 0 := by
  rw [isZero, List.isEmpty_iff]
  exact ⟨fun h => ext h, fun h => by rw [h]; rfl⟩

theorem isZero_eq_false {p : SparsePoly} (h : p ≠ 0) : p.isZero = false := by
  rw [Bool.eq_false_iff]
  exact mt isZero_iff.mp h

theorem support_ne_nil {p : SparsePoly} (h : p ≠ 0) : p.support ≠ [] := fun hn => h (ext hn)

theorem leadingTerm_mem {p : SparsePoly} (h : p ≠ 0) : p.leadingTerm ∈ p.support := by
  rw [leadingTerm, List.headD_eq_head?_getD, List.head?_eq_some_head (support_ne_nil h)]
  exact List.head_mem _

theorem support_ofTerm {t : Term} (h : t.coefficient ≠ 0) : (ofTerm t).support = [t] := by
  rw [ofTerm, dif_neg h]

theorem leadingTerm_ofTerm {t : Term} (h : t.coefficient ≠ 0) : (ofTerm t).leadingTerm = t := by
  rw [leadingTerm, support_ofTerm h, List.headD_cons]

theorem exponent_le_leadingExponent {p : SparsePoly} {t : Term} (h : t ∈ p.support) :
    t.exponent ≤ p.leadingExponent := by
  have hd := p.descending
  rw [leadingExponent, leadingTerm]
  cases hs : p.support with
  | nil => simp [hs] at h
  | cons s ts =>
    rw [hs] at h hd
    cases List.mem_cons.mp h with
    | inl hts => exact (congrArg Term.exponent hts).le
    | inr hts => exact ((List.pairwise_cons.mp hd).1 t hts).le

theorem exponent_le_of_mem_terms {p : SparsePoly} {t : Term} (h : t ∈ p.terms) :
    t.exponent ≤ p.leadingExponent := by
  rw [terms] at h
  split at h
  · rw [List.mem_singleton.mp h]
    exact Nat.zero_le _
  · exact exponent_le_leadingExponent h

theorem leadingExponent_le (p : SparsePoly) : p.leadingExponent ≤ maxExponent :=
  p.leadingTerm.exponent_le

theorem leadingExponent_add_le {p q : SparsePoly} (h : p = 0 ∨ q = 0) :
    p.leadingExponent + q.leadingExponent ≤ maxExponent := by
  cases h with
  | inl hp => exact hp ▸ (Nat.zero_add _).trans_le q.leadingExponent_le
  | inr hq => exact hq ▸ p.leadingExponent_le

theorem leadingCoefficient_ne_zero {p : SparsePoly} (h : p ≠ 0) : p.leadingCoefficient ≠ 0 :=
  p.nonzero _ (leadingTerm_mem h)

theorem coefficient_leadingExponent {p : SparsePoly} (h : p ≠ 0) :
    p.coefficient p.leadingExponent = p.leadingCoefficient :=
  coefficient_of_mem (leadingTerm_mem h)

theorem coefficient_eq_zero_of_lt {p : SparsePoly} {e : Nat} (h : p.leadingExponent < e) :
    p.coefficient e = 0 := by
  by_contra hne
  obtain ⟨t, ht, rfl⟩ := coefficient_ne_zero_iff.mp hne
  have := exponent_le_leadingExponent ht
  omega

theorem degree?_eq_some {p : SparsePoly} (h : p ≠ 0) : p.degree? = some p.leadingExponent := by
  rw [degree?, leadingExponent, leadingTerm, List.headD_eq_head?_getD,
    List.head?_eq_some_head (support_ne_nil h)]
  rfl

theorem natDegree_value (p : SparsePoly) : p.value.natDegree = p.leadingExponent := by
  by_cases h : p = 0
  · subst h
    rfl
  apply natDegree_eq_of_le_of_coeff_ne_zero
  · rw [natDegree_le_iff_coeff_eq_zero]
    intro e he
    rw [coeff_value, coefficient_eq_zero_of_lt he, Decimal.toRat_zero]
  · rw [coeff_value, coefficient_leadingExponent h]
    exact mt Decimal.toRat_eq_zero.mp (leadingCoefficient_ne_zero h)

theorem leadingCoeff_value (p : SparsePoly) :
    p.value.leadingCoeff = p.leadingCoefficient.toRat := by
  by_cases h : p = 0
  · subst h
    exact leadingCoeff_zero.trans Decimal.toRat_zero.symm
  · rw [leadingCoeff, natDegree_value, coeff_value, coefficient_leadingExponent h]

theorem degree_value {p : SparsePoly} (h : p ≠ 0) : p.value.degree = p.leadingExponent := by
  rw [degree_eq_natDegree (mt value_eq_zero.mp h), natDegree_value]

theorem degree_value_lt_iff {r b : SparsePoly} (hb : b ≠ 0) :
    r.value.degree < b.value.degree ↔ r = 0 ∨ r.leadingExponent < b.leadingExponent := by
  rw [degree_value hb]
  by_cases hr : r = 0
  · subst hr
    simp
  · rw [degree_value hr, Nat.cast_lt]
    simp [hr]

end DecimalPoly.SparsePoly
