import DecimalPoly.Proofs.SparsePoly.Residue

/-! Long division from the highest exponent down is a recurrence for the quotient's coefficients.
Each is what the multiples of the divisor for the ones before it leave of the dividend, divided by the
divisor's leading coefficient and rounded. The recurrence has one solution, whatever was rounded. -/
namespace DecimalPoly.SparsePoly
variable {a b p q : SparsePoly} {precision j : Nat} {t : Term}

/-- The coefficients of `q` are those that long division of `a` by `b` asks for, each in terms of the
ones above it, and there are none above the difference of the leading exponents. -/
structure QuotientRecurrence (a b : SparsePoly) (precision : Nat) (q : SparsePoly) : Prop where
  above : ∀ j, a.leadingExponent < j + b.leadingExponent → q.coefficient j = 0
  next : ∀ e, b.leadingExponent ≤ e → e ≤ a.leadingExponent →
    (a.coefficient e - ∑ j ∈ Finset.Ioc (e - b.leadingExponent) e,
      q.coefficient j * b.coefficient (e - j)).div? b.leadingCoefficient precision =
        some (q.coefficient (e - b.leadingExponent))

theorem div?_leadingCoefficient (hb : b ≠ 0) (x : Decimal) (precision : Nat) :
    x.div? b.leadingCoefficient precision = some (x.div b.leadingCoefficient precision) :=
  if_neg (leadingCoefficient_ne_zero hb)

theorem QuotientRecurrence.coefficient_eq (hb : b ≠ 0) (h : QuotientRecurrence a b precision q)
    (hj : j + b.leadingExponent ≤ a.leadingExponent) : q.coefficient j =
      (pending a b q (j + b.leadingExponent)).div b.leadingCoefficient precision := by
  have hnext := h.next (j + b.leadingExponent) (Nat.le_add_left ..) hj
  rw [div?_leadingCoefficient hb, Nat.add_sub_cancel, Option.some_inj] at hnext
  rw [pending, Nat.add_sub_cancel, hnext]

theorem QuotientRecurrence.unique (hb : b ≠ 0) (hp : QuotientRecurrence a b precision p)
    (hq : QuotientRecurrence a b precision q) : p = q := by
  apply eq_of_coefficient_eq
  intro j
  induction hopen : a.leadingExponent + 1 - j using Nat.strongRecOn generalizing j with
  | ind n ih =>
    by_cases hj : j + b.leadingExponent ≤ a.leadingExponent
    · have hpending : pending a b p (j + b.leadingExponent) =
          pending a b q (j + b.leadingExponent) := by
        rw [pending, pending, Nat.add_sub_cancel]
        congr 1
        refine Finset.sum_congr rfl fun i hi => ?_
        have hlt := (Finset.mem_Ioc.mp hi).1
        rw [ih _ (by omega) i rfl]
      rw [hp.coefficient_eq hb hj, hq.coefficient_eq hb hj, hpending]
    · have hlt := Nat.lt_of_not_le hj
      rw [hp.above j hlt, hq.above j hlt]

theorem recurrence_divRem (hb : b ≠ 0) {r : SparsePoly}
    (h : (divRem a b precision).outcome = .ok (q, r)) : QuotientRecurrence a b precision q where
  above := by
    intro j hj
    obtain ⟨hq, -⟩ := value_of_divRem hb h
    by_cases hq0 : q = 0
    · rw [hq0]
      rfl
    · have htop := (LongDivision.invariant_ofDivision a hb precision).leadingExponent_le (hq ▸ hq0)
      rw [← hq] at htop
      exact coefficient_eq_zero_of_lt (by omega)
  next := by
    intro e he _
    rw [div?_leadingCoefficient hb, coefficient_quotient hb h he]
    rfl

theorem pending_ofTerm (ht : t.coefficient ≠ 0) (a q : SparsePoly) (j : Nat) :
    pending a (ofTerm t) q (j + t.exponent) = a.coefficient (j + t.exponent) := by
  have hlead : (ofTerm t).leadingExponent = t.exponent :=
    congrArg Term.exponent (leadingTerm_ofTerm ht)
  rw [pending, hlead, Nat.add_sub_cancel, Finset.sum_eq_zero, sub_zero]
  -- a single term reaches no exponent but its own
  intro i hi
  obtain ⟨hlow, hhigh⟩ := Finset.mem_Ioc.mp hi
  have hz : (ofTerm t).coefficient (j + t.exponent - i) = 0 := by
    apply coefficient_eq_zero
    intro u hu
    rw [support_ofTerm ht, List.mem_singleton] at hu
    rw [hu]
    omega
  rw [hz, mul_zero]

theorem coefficient_quotient_ofTerm (ht : t.coefficient ≠ 0) {r : SparsePoly}
    (h : (divRem a (ofTerm t) precision).outcome = .ok (q, r)) (j : Nat) :
    q.coefficient j = (a.coefficient (j + t.exponent)).div t.coefficient precision := by
  have hb : ofTerm t ≠ 0 := by
    intro hz
    have hsupport := support_ofTerm ht
    rw [hz] at hsupport
    cases hsupport
  have hlead := leadingTerm_ofTerm ht
  have hq := coefficient_quotient (e := j + t.exponent) hb h
  rw [leadingExponent, leadingCoefficient, hlead, pending_ofTerm ht, Nat.add_sub_cancel] at hq
  exact hq (Nat.le_add_left ..)

/-- The quotient of long division is the one solution of the recurrence, also where its coefficients
were rounded and left a residue, and the dense buffer leads to it. A divisor of one term divides each
coefficient on its own. -/
theorem quotient_recurrence (a : SparsePoly) (hb : b ≠ 0) (precision : Nat) :
    ∃ q, (quotient a b precision).outcome = .ok q ∧
      a.row.quotient b.row precision = .ok q.row ∧
      (∀ q', QuotientRecurrence a b precision q' ↔ q' = q) ∧
      ∀ t, b = ofTerm t → ∀ j,
        (a.coefficient (j + t.exponent)).div? t.coefficient precision = some (q.coefficient j) := by
  obtain ⟨q, r, -, hquotient, -, -, -, hout⟩ := outcome_divRem a hb precision
  have hdense := Plain.Row.quotient_row a b precision
  rw [hquotient] at hdense
  have hrec := recurrence_divRem hb hout
  refine ⟨q, hquotient, hdense, fun q' => ⟨fun h => h.unique hb hrec, ?_⟩, ?_⟩
  · intro hq'
    rw [hq']
    exact hrec
  · intro t hbt j
    subst hbt
    have ht : t.coefficient ≠ 0 := by
      intro hz
      exact hb (dif_pos hz)
    rw [coefficient_quotient_ofTerm ht hout]
    exact if_neg ht

/-- Thirds to two digits: the second coefficient is found from what the first one, rounded, leaves,
and by a term alone both are divided as they are. -/
theorem quotient_recurrence_thirds :
    let a : SparsePoly := ⟨[⟨1, 2, by decide⟩, ⟨.ofInt 2, 1, by decide⟩],
      by simp [Descending], by decide⟩
    let b : SparsePoly := ⟨[⟨.ofInt 3, 1, by decide⟩, ⟨1, 0, by decide⟩],
      by simp [Descending], by decide⟩
    let q : SparsePoly := ⟨[⟨.ofScaled 33 2, 1, by decide⟩, ⟨.ofScaled 56 2, 0, by decide⟩],
      by simp [Descending], by decide⟩
    let t : Term := ⟨.ofInt 3, 1, by decide⟩
    b ≠ 0 ∧ (quotient a b 2).outcome = .ok q ∧ QuotientRecurrence a b 2 q ∧
      (∀ q', QuotientRecurrence a b 2 q' → q' = q) ∧
      ofTerm t ≠ 0 ∧ ∃ s, (quotient a (ofTerm t) 2).outcome = .ok s ∧
        some (s.coefficient 0) = (Decimal.ofInt 2).div? (.ofInt 3) 2 ∧
        some (s.coefficient 1) = (1 : Decimal).div? (.ofInt 3) 2 := by
  intro a b q t
  have hb : b ≠ 0 := by decide
  have ht : ofTerm t ≠ 0 := by decide
  have hout : (quotient a b 2).outcome = .ok q := by decide +kernel
  obtain ⟨q', hout', -, hrec, -⟩ := quotient_recurrence a hb 2
  obtain ⟨s, hs, -, -, hterm⟩ := quotient_recurrence a ht 2
  rw [hout, Except.ok.injEq] at hout'
  subst hout'
  exact ⟨hb, hout, (hrec q).mpr rfl, fun q' => (hrec q').mp, ht, s, hs,
    (hterm t rfl 0).symm, (hterm t rfl 1).symm⟩

end DecimalPoly.SparsePoly
