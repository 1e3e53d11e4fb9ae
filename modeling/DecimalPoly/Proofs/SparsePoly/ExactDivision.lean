import DecimalPoly.Proofs.Plain.Division
import DecimalPoly.Proofs.SparsePoly.Evaluation
import Mathlib.Algebra.Polynomial.Inductions
import Mathlib.Tactic.LinearCombination

/-! Long division finds the exact division wherever there is one. As long as the coefficients found
are those of the exact quotient, the next one is as well: what is left of the dividend is the rest
of that quotient times the divisor, so its leading term divides without rounding. -/
namespace DecimalPoly
open Polynomial Plain

/-- A division with remainder over the rationals whose quotient is written with `digits` digits in
each coefficient. -/
structure ExactDivision (digits : Nat) (a b q r : ℚ[X]) : Prop where
  balance : a = q * b + r
  below : r.degree < b.degree
  fits : ∀ e, Decimal.FitsDigits digits (q.coeff e)

theorem ExactDivision.coeff_eq_zero {a b : SparsePoly} {digits : Nat} {q r : ℚ[X]} (hb : b ≠ 0)
    (h : ExactDivision digits a.value b.value q r) {e : Nat}
    (he : a.leadingExponent < e + b.leadingExponent) : q.coeff e = 0 := by
  by_contra hne
  have hb' : b.value ≠ 0 := mt SparsePoly.value_eq_zero.mp hb
  have hq : q ≠ 0 := by
    rintro rfl
    exact hne rfl
  have hbelow : r.degree < (q * b.value).degree := by
    rw [mul_comm]
    exact h.below.trans_le (degree_le_mul_left b.value hq)
  have hdegree : a.value.natDegree = q.natDegree + b.value.natDegree := by
    rw [h.balance, natDegree_add_eq_left_of_degree_lt hbelow, natDegree_mul hq hb']
  have htop := le_natDegree_of_ne_zero hne
  rw [SparsePoly.natDegree_value, SparsePoly.natDegree_value] at hdegree
  omega

namespace LongDivision
variable {a b : SparsePoly} {precision n bound : Nat} {s : LongDivision} {t : Term}
variable {q r : ℚ[X]}

def FoundFrom (q : ℚ[X]) (n : Nat) (s : LongDivision) : Prop :=
  ∀ e, n ≤ e → (valueOf s.found).coeff e = q.coeff e

/-- Under the highest open exponent stands the product of one coefficient of the exact quotient and
the leading coefficient of the divisor. -/
theorem Invariant.coefficient_left (hb : b ≠ 0)
    (h : Invariant a b (b.leadingExponent + (n + 1)) s)
    (hexact : ExactDivision precision a.value b.value q r) (hfound : FoundFrom q (n + 1) s) :
    (s.left.coefficient (b.leadingExponent + n)).toRat =
      q.coeff n * b.leadingCoefficient.toRat := by
  have hleft : s.left.value = (q - valueOf s.found) * b.value + r := by
    have hsum := h.balance.trans hexact.balance
    linear_combination hsum
  have hdegree : (q - valueOf s.found).natDegree ≤ n := by
    rw [natDegree_le_iff_coeff_eq_zero]
    intro e he
    rw [coeff_sub, hfound e he, sub_self]
  have hproduct := coeff_mul_add_eq_of_natDegree_le hdegree (SparsePoly.natDegree_value b).le
  -- the remainder ends below the exponent that is open
  have hrest : r.coeff (b.leadingExponent + n) = 0 := by
    apply coeff_eq_zero_of_degree_lt
    calc r.degree < b.value.degree := hexact.below
      _ = (b.leadingExponent : WithBot ℕ) := SparsePoly.degree_value hb
      _ ≤ ((b.leadingExponent + n : ℕ) : WithBot ℕ) := by exact_mod_cast Nat.le_add_right ..
  rw [← SparsePoly.coeff_value, hleft, coeff_add, hrest, add_zero, Nat.add_comm, hproduct,
    coeff_sub, h.coeff_found, sub_zero, SparsePoly.coeff_value,
    SparsePoly.coefficient_leadingExponent hb]

theorem Invariant.toRat_quotientTerm (hb : b ≠ 0) (hp : 1 ≤ precision)
    (h : Invariant a b (b.leadingExponent + (n + 1)) s)
    (hexact : ExactDivision precision a.value b.value q r) (hfound : FoundFrom q (n + 1) s)
    (ht : t ∈ s.left.support) (he : t.exponent = b.leadingExponent + n) :
    (t.coefficient.div b.leadingCoefficient precision).toRat = q.coeff n := by
  have hlead := SparsePoly.leadingCoefficient_ne_zero hb
  have hcoeff := h.coefficient_left hb hexact hfound
  rw [← he, SparsePoly.coefficient_of_mem ht] at hcoeff
  have hquotient : t.coefficient.toRat / b.leadingCoefficient.toRat = q.coeff n :=
    (div_eq_iff (mt Decimal.toRat_eq_zero.mp hlead)).mpr hcoeff
  rw [← hquotient]
  refine (Decimal.div_exact_iff (s.left.nonzero t ht) hlead precision).mpr ?_
  rw [hquotient, Nat.max_eq_right hp]
  exact hexact.fits n

theorem Invariant.found_run (hb : b ≠ 0) (hp : 1 ≤ precision)
    (hexact : ExactDivision precision a.value b.value q r)
    (h : Invariant a b (b.leadingExponent + n) s) (hfound : FoundFrom q n s) :
    FoundFrom q 0 (LongDivision.run b precision (b.leadingExponent + n) s) := by
  refine Invariant.run_induction (motive := FoundFrom q) hb ?skip ?step h hfound
  case skip =>
    intro n s hinv hfound hz e he
    cases Nat.eq_or_lt_of_le he with
    | inl heq =>
      -- nothing is left there, and the exact quotient has no such term
      have hcoeff := hinv.coefficient_left hb hexact hfound
      rw [hz, Decimal.toRat_zero, zero_eq_mul, Decimal.toRat_eq_zero] at hcoeff
      rw [← heq, hinv.coeff_found, hcoeff.resolve_right (SparsePoly.leadingCoefficient_ne_zero hb)]
    | inr hlt => exact hfound e hlt
  case step =>
    intro n s t hinv hfound ht hexp e he
    obtain ⟨hhere, habove⟩ := hinv.coeff_found_step precision hexp
    cases Nat.eq_or_lt_of_le he with
    | inl heq => rw [← heq, hhere, hinv.toRat_quotientTerm hb hp hexact hfound ht hexp]
    | inr hlt => rw [habove e hlt, hfound e hlt]

theorem fits_run (hb : b ≠ 0) (hp : 1 ≤ precision)
    (h : ∀ t ∈ s.found, Decimal.FitsDigits precision t.coefficient.toRat) :
    ∀ t ∈ (run b precision bound s).found, Decimal.FitsDigits precision t.coefficient.toRat := by
  fun_induction LongDivision.run b precision bound s with
  | case1 bound s hnone => exact h
  | case2 bound s t hnext ih =>
    have hlead := SparsePoly.leadingCoefficient_ne_zero hb
    have hfits := Decimal.fitsDigits_div t.coefficient hlead precision
    rw [Nat.max_eq_right hp] at hfits
    exact ih (List.forall_mem_cons.mpr ⟨hfits, h⟩)

theorem found_ofDivision (hb : b ≠ 0) (hp : 1 ≤ precision)
    (hexact : ExactDivision precision a.value b.value q r) :
    valueOf (ofDivision a b precision).found = q := by
  rw [ofDivision_eq_run]
  ext e
  refine (Invariant.start a b _).found_run hb hp hexact (fun e he => ?_) e (Nat.zero_le e)
  rw [hexact.coeff_eq_zero hb (by omega), valueOf_nil, coeff_zero]

end LongDivision

namespace SparsePoly
variable {a b q r : SparsePoly} {precision : Nat}

theorem divRem_eq_of_exact (hb : b ≠ 0) (hp : 1 ≤ precision) {Q R : ℚ[X]}
    (hexact : ExactDivision precision a.value b.value Q R)
    (h : (divRem a b precision).outcome = .ok (q, r)) : q.value = Q ∧ r.value = R := by
  obtain ⟨hq, hsum⟩ := value_of_divRem hb h
  have hQ : q.value = Q := by
    rw [hq, value_ofTerms, valueOf_reverse]
    exact LongDivision.found_ofDivision hb hp hexact
  refine ⟨hQ, ?_⟩
  have hbalance := hsum.symm.trans hexact.balance
  rw [hQ] at hbalance
  exact add_left_cancel hbalance

theorem fitsDigits_coefficient {p : SparsePoly} {digits : Nat}
    (h : ∀ t ∈ p.support, Decimal.FitsDigits digits t.coefficient.toRat) (e : Nat) :
    Decimal.FitsDigits digits (p.coefficient e).toRat := by
  by_cases hz : p.coefficient e = 0
  · rw [hz, Decimal.toRat_zero]
    exact Decimal.fitsDigits_zero _
  · obtain ⟨t, ht, rfl⟩ := coefficient_ne_zero_iff.mp hz
    rw [coefficient_of_mem ht]
    exact h t ht

theorem fits_quotient (hb : b ≠ 0) (hp : 1 ≤ precision)
    (h : (divRem a b precision).outcome = .ok (q, r)) (e : Nat) :
    Decimal.FitsDigits precision (q.value.coeff e) := by
  obtain ⟨hq, -⟩ := value_of_divRem hb h
  have hsupport := (LongDivision.invariant_ofDivision a hb precision).support
  rw [coeff_value]
  refine fitsDigits_coefficient (fun t ht => ?_) e
  rw [hq, hsupport, List.mem_reverse] at ht
  exact LongDivision.fits_run hb hp (by simp) t ht

theorem exactDivision_of_below (hb : b ≠ 0) (hp : 1 ≤ precision)
    (h : (divRem a b precision).outcome = .ok (q, r))
    (hbelow : r = 0 ∨ r.leadingExponent < b.leadingExponent) :
    ExactDivision precision a.value b.value q.value r.value where
  balance := (value_of_divRem hb h).2
  below := (degree_value_lt_iff hb).mpr hbelow
  fits := fits_quotient hb hp h

theorem outcome_divRem_of_exact (hb : b ≠ 0) (hp : 1 ≤ precision)
    (hexact : ExactDivision precision a.value b.value q.value r.value) :
    (divRem a b precision).outcome = .ok (q, r) := by
  obtain ⟨q', r', -, -, -, -, -, hout⟩ := outcome_divRem a hb precision
  obtain ⟨hq, hr⟩ := divRem_eq_of_exact hb hp hexact hout
  rw [hout, value_injective hq, value_injective hr]

/-- The remainder ends below the divisor if and only if there is a division with remainder whose
quotient is written with as many digits as were asked for in each coefficient, and then it is that
division that is returned, from the dense buffer too. So a product is divided by either factor if
the other has few enough digits, and more precision does not change what is exact. -/
theorem divRem_finds_exact (a : SparsePoly) (hb : b ≠ 0) (hp : 1 ≤ precision) :
    ∃ q r, (divRem a b precision).outcome = .ok (q, r) ∧
      a.row.divRem b.row precision = .ok (q.row, r.row) ∧
      (r = 0 ∨ r.leadingExponent < b.leadingExponent ↔
        ∃ q' r' : SparsePoly, ExactDivision precision a.value b.value q'.value r'.value) ∧
      (∀ Q R : ℚ[X], ExactDivision precision a.value b.value Q R → q.value = Q ∧ r.value = R) ∧
      (r = 0 ∨ r.leadingExponent < b.leadingExponent → ∀ precision', precision ≤ precision' →
        (divRem a b precision').outcome = .ok (q, r)) ∧
      ∀ c : SparsePoly, c.mul? b = .ok a →
        (∀ e, Decimal.FitsDigits precision (c.coefficient e).toRat) → q = c ∧ r = 0 := by
  obtain ⟨q, r, -, -, -, -, -, hout⟩ := outcome_divRem a hb precision
  have hdense := Row.divRem_row a b precision
  rw [hout] at hdense
  have hfound {Q R : ℚ[X]} (h : ExactDivision precision a.value b.value Q R) :=
    divRem_eq_of_exact hb hp h hout
  refine ⟨q, r, hout, hdense, ⟨fun hbelow => ?_, ?_⟩, fun Q R => hfound, ?_, ?_⟩
  · exact ⟨q, r, exactDivision_of_below hb hp hout hbelow⟩
  · rintro ⟨q', r', hexact⟩
    rw [value_injective (hfound hexact).2]
    exact (degree_value_lt_iff hb).mp hexact.below
  · intro hbelow precision' hle
    have hexact := exactDivision_of_below hb hp hout hbelow
    exact outcome_divRem_of_exact hb (hp.trans hle)
      { hexact with fits := fun e => (hexact.fits e).mono hle }
  · intro c hc hfits
    have hexact : ExactDivision precision a.value b.value c.value (0 : SparsePoly).value := by
      refine ⟨?_, (degree_value_lt_iff hb).mpr (.inl rfl), fun e => ?_⟩
      · rw [value_of_mul? hc, value_zero, add_zero]
      · rw [coeff_value]
        exact hfits e
    exact ⟨value_injective (hfound hexact).1, value_injective (hfound hexact).2⟩

theorem divRem_finds_exact_quarters :
    let b : SparsePoly := ⟨[⟨.ofInt 3, 1, by decide⟩, ⟨1, 0, by decide⟩],
      by simp [Descending], by decide⟩
    let c : SparsePoly := ⟨[⟨.ofScaled 25 2, 2, by decide⟩, ⟨.ofInt (-3), 0, by decide⟩],
      by simp [Descending], by decide⟩
    let a : SparsePoly := ofTerms [⟨.ofScaled 75 2, 3, by decide⟩, ⟨.ofScaled 25 2, 2, by decide⟩,
      ⟨.ofInt (-9), 1, by decide⟩, ⟨.ofInt (-3), 0, by decide⟩]
    b ≠ 0 ∧ c.mul? b = .ok a ∧ (∀ e, Decimal.FitsDigits 2 (c.coefficient e).toRat) ∧
      (divRem a b 2).outcome = .ok (c, 0) ∧ (divRem a b 28).outcome = .ok (c, 0) := by
  intro b c a
  have hb : b ≠ 0 := by decide
  have hmul : c.mul? b = .ok a := by decide +kernel
  have hfits : ∀ e, Decimal.FitsDigits 2 (c.coefficient e).toRat := by
    apply fitsDigits_coefficient
    refine List.forall_mem_cons.mpr ⟨?_, List.forall_mem_singleton.mpr ?_⟩
    · exact ⟨25, -2, by norm_num, by rw [Decimal.toRat_ofScaled]; norm_num⟩
    · exact ⟨-3, 0, by norm_num, by rw [Decimal.toRat_ofInt]; norm_num⟩
  have hp : 1 ≤ 2 := by decide
  obtain ⟨q, r, hout, -, -, -, hmore, hfactor⟩ := divRem_finds_exact a hb hp
  obtain ⟨rfl, rfl⟩ := hfactor c hmul hfits
  exact ⟨hb, hmul, hfits, hout, hmore (.inl rfl) 28 (by decide)⟩

end SparsePoly
end DecimalPoly
