import DecimalPoly.SparsePoly.LongDivision
import DecimalPoly.Proofs.Decimal.Quotient
import DecimalPoly.Proofs.Journal
import DecimalPoly.Proofs.SparsePoly.Product

/-! Long division from its first step to its last. The multiples that are taken away make up the
quotient times the divisor, whatever the coefficients were rounded to, and no exponent on the way
passes that of the dividend. -/
namespace DecimalPoly
open Polynomial

namespace SparsePoly

theorem value_mulTerm {p : SparsePoly} {t : Term}
    (h : t.exponent + p.leadingExponent ≤ maxExponent) :
    (p.mulTerm t).value = t.value * p.value := by
  rw [mulTerm, value_ofTerms, valueOf_filterMap_mul]
  · rfl
  · intro u hu
    have := exponent_le_leadingExponent hu
    omega

theorem coefficient_mulTerm {p : SparsePoly} {t : Term}
    (h : t.exponent + p.leadingExponent ≤ maxExponent) (e : Nat) :
    (p.mulTerm t).coefficient (e + t.exponent) = t.coefficient * p.coefficient e := by
  apply Decimal.toRat_injective
  rw [← coeff_value, value_mulTerm h, Term.value, coeff_monomial_mul, coeff_value,
    Decimal.toRat_mul]

theorem coefficient_mulTerm_of_lt {p : SparsePoly} {t : Term}
    (h : t.exponent + p.leadingExponent ≤ maxExponent) {e : Nat} (he : e < t.exponent) :
    (p.mulTerm t).coefficient e = 0 := by
  apply Decimal.toRat_injective
  rw [← coeff_value, value_mulTerm h, Term.value, ← C_mul_X_pow_eq_monomial, mul_assoc, coeff_C_mul,
    coeff_X_pow_mul', if_neg (by omega), mul_zero, Decimal.toRat_zero]

theorem coefficient_mulTerm_eq_zero {p : SparsePoly} {t : Term} {e : Nat}
    (h : t.exponent + p.leadingExponent ≤ maxExponent)
    (he : ∀ u ∈ p.support, u.exponent + t.exponent ≠ e) : (p.mulTerm t).coefficient e = 0 := by
  by_cases hlt : e < t.exponent
  · exact coefficient_mulTerm_of_lt h hlt
  obtain ⟨d, rfl⟩ := Nat.exists_eq_add_of_le' (Nat.le_of_not_lt hlt)
  have hd : p.coefficient d = 0 := coefficient_eq_zero fun u hu heq => he u hu (by rw [heq])
  rw [coefficient_mulTerm h, hd, Decimal.mul_zero]

theorem support_ofTerms {ts : List Term} (hd : Descending ts) (h0 : ∀ t ∈ ts, t.coefficient ≠ 0) :
    (ofTerms ts).support = ts :=
  eq_of_valueOf_eq (ofTerms ts).descending hd (ofTerms ts).nonzero h0 (value_ofTerms ts)

end SparsePoly

theorem valueOf_reverse (ts : List Term) : valueOf ts.reverse = valueOf ts := by
  rw [valueOf, List.map_reverse, List.sum_reverse, valueOf]

namespace LongDivision
variable {a b : SparsePoly} {precision bound : Nat} {s : LongDivision} {t : Term}

theorem mem_of_next? (h : s.next? b bound = some t) :
    t ∈ s.left.support ∧ b.leadingExponent ≤ t.exponent := by
  have := List.find?_some h
  exact ⟨List.mem_of_find?_eq_some h, by simp_all⟩

/-- What holds of a division of `a` by `b` once the exponents from `bound` on are dealt with. -/
structure Invariant (a b : SparsePoly) (bound : Nat) (s : LongDivision) : Prop where
  balance : valueOf s.found * b.value + s.left.value = a.value
  below : ∀ e, a.leadingExponent < e → s.left.coefficient e = 0
  done : ∀ t ∈ s.found, bound ≤ t.exponent + b.leadingExponent
  fits : ∀ t ∈ s.found, t.exponent + b.leadingExponent ≤ a.leadingExponent
  ascending : s.found.Pairwise fun t u => t.exponent < u.exponent
  nonzero : ∀ t ∈ s.found, t.coefficient ≠ 0

theorem Invariant.start (a b : SparsePoly) (bound : Nat) : Invariant a b bound ⟨[], a⟩ where
  balance := by simp
  below _ := SparsePoly.coefficient_eq_zero_of_lt
  done := by simp
  fits := by simp
  ascending := .nil
  nonzero := by simp

theorem Invariant.mono {bound' : Nat} (h : Invariant a b bound s) (hle : bound' ≤ bound) :
    Invariant a b bound' s :=
  { h with done := fun t ht => hle.trans (h.done t ht) }

theorem Invariant.exponent_le (h : Invariant a b bound s) (ht : t ∈ s.left.support) :
    t.exponent ≤ a.leadingExponent := by
  by_contra hlt
  have hz := h.below t.exponent (by omega)
  rw [SparsePoly.coefficient_of_mem ht] at hz
  exact s.left.nonzero t ht hz

theorem exponent_quotientTerm (precision : Nat) (h : b.leadingExponent ≤ t.exponent) :
    (quotientTerm b precision t).exponent + b.leadingExponent = t.exponent :=
  Nat.sub_add_cancel h

theorem Invariant.step (hb : b ≠ 0) (h : Invariant a b bound s)
    (hnext : s.next? b bound = some t) : Invariant a b t.exponent (s.step b precision t) := by
  obtain ⟨hmem, hle⟩ := mem_of_next? hnext
  have hlt := exponent_lt_of_next? hnext
  have htop := h.exponent_le hmem
  have hexp := exponent_quotientTerm precision hle
  have hfit : (quotientTerm b precision t).exponent + b.leadingExponent ≤ maxExponent :=
    hexp.trans_le t.exponent_le
  constructor
  case balance =>
    simp only [LongDivision.step, valueOf_cons, SparsePoly.value_sub, SparsePoly.value_mulTerm hfit]
    rw [← h.balance]
    ring
  case below =>
    intro e he
    have hz : (b.mulTerm (quotientTerm b precision t)).coefficient e = 0 := by
      apply SparsePoly.coefficient_mulTerm_eq_zero hfit
      intro u hu
      have := SparsePoly.exponent_le_leadingExponent hu
      omega
    rw [LongDivision.step, SparsePoly.coefficient_sub, h.below e he, hz, Decimal.sub_zero]
  case done =>
    intro u hu
    cases List.mem_cons.mp hu with
    | inl hq => rw [hq, hexp]
    | inr hu => exact hlt.le.trans (h.done u hu)
  case fits =>
    intro u hu
    cases List.mem_cons.mp hu with
    | inl hq => rw [hq, hexp]; exact htop
    | inr hu => exact h.fits u hu
  case ascending =>
    refine List.pairwise_cons.mpr ⟨fun u hu => ?_, h.ascending⟩
    have := h.done u hu
    omega
  case nonzero =>
    intro u hu
    cases List.mem_cons.mp hu with
    | inl hq =>
      rw [hq]
      exact Decimal.div_ne_zero_of_ne_zero (s.left.nonzero t hmem)
        (SparsePoly.leadingCoefficient_ne_zero hb) precision
    | inr hu => exact h.nonzero u hu

theorem Invariant.coeff_found {n : Nat} (h : Invariant a b (b.leadingExponent + (n + 1)) s) :
    (valueOf s.found).coeff n = 0 := by
  apply coeff_valueOf_of_forall_ne
  intro t ht
  have := h.done t ht
  omega

theorem Invariant.coeff_found_step {n : Nat} (h : Invariant a b (b.leadingExponent + (n + 1)) s)
    (precision : Nat) (he : t.exponent = b.leadingExponent + n) :
    (valueOf (s.step b precision t).found).coeff n =
        (t.coefficient.div b.leadingCoefficient precision).toRat ∧
      ∀ e, n < e → (valueOf (s.step b precision t).found).coeff e = (valueOf s.found).coeff e := by
  have hexp : (quotientTerm b precision t).exponent = n := Nat.sub_eq_of_eq_add' he
  constructor
  · rw [LongDivision.step, valueOf_cons, coeff_add, Term.coeff_value, if_pos hexp, h.coeff_found,
      add_zero]
    rfl
  · intro e hlt
    rw [LongDivision.step, valueOf_cons, coeff_add, Term.coeff_value, hexp, if_neg hlt.ne, zero_add]

theorem Invariant.run (hb : b ≠ 0) (h : Invariant a b bound s) :
    Invariant a b 0 (run b precision bound s) := by
  fun_induction LongDivision.run b precision bound s with
  | case1 bound s hnone => exact h.mono (Nat.zero_le _)
  | case2 bound s t hnext ih => exact ih (h.step hb hnext)

theorem invariant_ofDivision (a : SparsePoly) (hb : b ≠ 0) (precision : Nat) :
    Invariant a b 0 (ofDivision a b precision) :=
  (Invariant.start a b _).run hb

theorem next?_of_mem (ht : t ∈ s.left.support) (hle : b.leadingExponent ≤ t.exponent) :
    s.next? b (t.exponent + 1) = some t := by
  obtain ⟨us, vs, happend⟩ := List.append_of_mem ht
  have hd := s.left.descending
  rw [happend, Descending, List.pairwise_append] at hd
  rw [next?, List.find?_eq_some_iff_append]
  refine ⟨by simpa using hle, us, vs, happend, fun u hu => ?_⟩
  have := hd.2.2 u hu t List.mem_cons_self
  simp
  omega

theorem run_of_mem (ht : t ∈ s.left.support) (hle : b.leadingExponent ≤ t.exponent) :
    run b precision (t.exponent + 1) s = run b precision t.exponent (s.step b precision t) := by
  rw [run]
  split
  · next hnone =>
    rw [next?_of_mem ht hle] at hnone
    cases hnone
  · next u hu =>
    rw [next?_of_mem ht hle] at hu
    cases hu
    rfl

theorem run_of_coefficient_eq_zero {n : Nat} (h : s.left.coefficient n = 0) :
    run b precision (n + 1) s = run b precision n s := by
  have hnext : s.next? b (n + 1) = s.next? b n := by
    rw [next?]
    apply List.find?_congr
    intro u hu
    have hne : u.exponent ≠ n := by
      rintro rfl
      rw [SparsePoly.coefficient_of_mem hu] at h
      exact s.left.nonzero u hu h
    have hiff : u.exponent < n + 1 ↔ u.exponent < n := by omega
    simp only [hiff]
  rw [run, run, hnext]

theorem run_of_le (h : bound ≤ b.leadingExponent) : run b precision bound s = s := by
  have hnone : s.next? b bound = none := by
    rw [next?, List.find?_eq_none]
    intro u _
    simp
    omega
  rw [run]
  split
  · rfl
  · next u hu =>
    rw [hnone] at hu
    cases hu

theorem Invariant.step_of_mem {n : Nat} (hb : b ≠ 0)
    (h : Invariant a b (b.leadingExponent + (n + 1)) s) (precision : Nat)
    (ht : t ∈ s.left.support) (he : t.exponent = b.leadingExponent + n) :
    Invariant a b (b.leadingExponent + n) (s.step b precision t) := by
  have hle : b.leadingExponent ≤ t.exponent := he ▸ Nat.le_add_right ..
  have hbound : b.leadingExponent + (n + 1) = t.exponent + 1 := by omega
  exact he ▸ h.step hb (hbound ▸ next?_of_mem ht hle)

theorem run_succ_of_mem {n : Nat} (ht : t ∈ s.left.support)
    (he : t.exponent = b.leadingExponent + n) : run b precision (b.leadingExponent + (n + 1)) s =
      run b precision (b.leadingExponent + n) (s.step b precision t) := by
  rw [← Nat.add_assoc, ← he, run_of_mem ht (he ▸ Nat.le_add_right ..)]

/-- A property of the states of a division that lasts, as the exponents are dealt with from `n` above
the divisor's degree down to it: over one where nothing is left, and over one with a term. -/
theorem Invariant.run_induction {motive : Nat → LongDivision → Prop} (hb : b ≠ 0)
    (skip : ∀ n s, Invariant a b (b.leadingExponent + (n + 1)) s → motive (n + 1) s →
      s.left.coefficient (b.leadingExponent + n) = 0 → motive n s)
    (step : ∀ n s t, Invariant a b (b.leadingExponent + (n + 1)) s → motive (n + 1) s →
      t ∈ s.left.support → t.exponent = b.leadingExponent + n → motive n (s.step b precision t))
    {n : Nat} {s : LongDivision} (hinv : Invariant a b (b.leadingExponent + n) s)
    (h : motive n s) : motive 0 (LongDivision.run b precision (b.leadingExponent + n) s) := by
  induction n generalizing s with
  | zero => rwa [run_of_le (Nat.add_zero _).le]
  | succ n ih =>
    by_cases hz : s.left.coefficient (b.leadingExponent + n) = 0
    · rw [← Nat.add_assoc, run_of_coefficient_eq_zero hz]
      exact ih (hinv.mono (by omega)) (skip n s hinv h hz)
    · obtain ⟨t, ht, he⟩ := SparsePoly.coefficient_ne_zero_iff.mp hz
      rw [run_succ_of_mem ht he]
      exact ih (hinv.step_of_mem hb precision ht he) (step n s t hinv h ht he)

theorem ofDivision_eq_run (a b : SparsePoly) (precision : Nat) : ofDivision a b precision =
    run b precision (b.leadingExponent + (a.leadingExponent + 1 - b.leadingExponent)) ⟨[], a⟩ := by
  rw [ofDivision]
  by_cases hle : b.leadingExponent ≤ a.leadingExponent + 1
  · rw [Nat.add_sub_cancel' hle]
  · rw [run_of_le (by omega), run_of_le (by omega)]

theorem found_suffix_run (b : SparsePoly) (precision bound : Nat) (s : LongDivision) :
    s.found <:+ (run b precision bound s).found := by
  fun_induction LongDivision.run b precision bound s with
  | case1 bound s hnone => exact List.suffix_refl _
  | case2 bound s t hnext ih => exact (List.suffix_cons ..).trans ih

theorem ofDivision_of_lt (h : a = 0 ∨ a.leadingExponent < b.leadingExponent) :
    ofDivision a b precision = ⟨[], a⟩ := by
  cases h with
  | inl ha =>
    subst ha
    exact (run_of_coefficient_eq_zero rfl).trans (run_of_le (Nat.zero_le _))
  | inr hlt => exact run_of_le hlt

theorem quotientTerm_mem_ofDivision (ha : a ≠ 0) (hle : b.leadingExponent ≤ a.leadingExponent)
    (precision : Nat) : quotientTerm b precision a.leadingTerm ∈ (ofDivision a b precision).found := by
  have hstep : ofDivision a b precision = run b precision a.leadingExponent
      (LongDivision.step b precision ⟨[], a⟩ a.leadingTerm) :=
    run_of_mem (SparsePoly.leadingTerm_mem ha) hle
  rw [hstep]
  exact (found_suffix_run ..).subset List.mem_cons_self

section
variable (h : Invariant a b bound s)
include h

theorem Invariant.support : (SparsePoly.ofTerms s.found.reverse).support = s.found.reverse := by
  apply SparsePoly.support_ofTerms
  · exact List.pairwise_reverse.mpr h.ascending
  · intro t ht
    exact h.nonzero t (List.mem_reverse.mp ht)

theorem Invariant.value :
    (SparsePoly.ofTerms s.found.reverse).value * b.value + s.left.value = a.value := by
  rw [SparsePoly.value_ofTerms, valueOf_reverse]
  exact h.balance

theorem Invariant.leadingExponent_le (h0 : SparsePoly.ofTerms s.found.reverse ≠ 0) :
    (SparsePoly.ofTerms s.found.reverse).leadingExponent + b.leadingExponent ≤
      a.leadingExponent := by
  have hmem := SparsePoly.leadingTerm_mem h0
  rw [h.support, List.mem_reverse] at hmem
  exact h.fits _ hmem

theorem Invariant.exponents_fit :
    (SparsePoly.ofTerms s.found.reverse).leadingExponent + b.leadingExponent ≤ maxExponent := by
  by_cases h0 : SparsePoly.ofTerms s.found.reverse = 0
  · rw [h0]
    exact (Nat.zero_add _).trans_le b.leadingExponent_le
  · exact (h.leadingExponent_le h0).trans a.leadingExponent_le

end

end LongDivision

namespace SparsePoly
variable {a b : SparsePoly} {precision : Nat}

theorem outcome_divRem_zero (a : SparsePoly) (precision : Nat) :
    (divRem a 0 precision).outcome = .error .divisionByZero := rfl

theorem outcome_quotient (hb : b ≠ 0) : (quotient a b precision).outcome =
    .ok (ofTerms (LongDivision.ofDivision a b precision).found.reverse) := by
  rw [quotient, isZero_eq_false hb]
  simp only [Bool.false_eq_true, if_false]
  rw [Logged.outcome_bind (a := ⟨⟩) rfl, Logged.outcome_bind (Logged.outcome_forM (fun _ => rfl) _)]
  rfl

theorem records_quotient (a : SparsePoly) (hb : b ≠ 0) (precision : Nat) :
    ∃ q, (quotient a b precision).outcome = .ok q ∧ (quotient a b precision).records =
      .dividing a.leadingExponent b.leadingExponent :: q.support.map .quotientTerm := by
  refine ⟨_, outcome_quotient hb, ?_⟩
  rw [(LongDivision.invariant_ofDivision a hb precision).support, quotient, isZero_eq_false hb]
  simp only [Bool.false_eq_true, if_false]
  rw [Logged.records_bind (a := ⟨⟩) rfl,
    Logged.records_bind (Logged.outcome_forM (fun _ => rfl) _), Logged.records_forM]
  exact congrArg (_ :: ·) (List.append_nil _)

theorem records_divRem (a b : SparsePoly) (precision : Nat) :
    (divRem a b precision).records = (quotient a b precision).records := by
  rw [divRem]
  cases hq : (quotient a b precision).outcome with
  | error e => rw [Logged.bind_of_error hq]
  | ok q =>
    rw [Logged.records_bind hq]
    cases q.mul? b with
    | error e => exact List.append_nil _
    | ok m => exact List.append_nil _

theorem outcome_divRem (a : SparsePoly) (hb : b ≠ 0) (precision : Nat) :
    ∃ q r m, (quotient a b precision).outcome = .ok q ∧ q.mul? b = .ok m ∧ m + r = a ∧
      r = a - m ∧ (divRem a b precision).outcome = .ok (q, r) := by
  have hinv := LongDivision.invariant_ofDivision a hb precision
  obtain ⟨m, hm, hval⟩ := mul?_eq_ok hinv.exponents_fit
  refine ⟨_, a - m, m, outcome_quotient hb, hm, ?_, rfl, ?_⟩
  · apply value_injective
    rw [value_add, value_sub, add_sub_cancel]
  · rw [divRem, Logged.outcome_bind (outcome_quotient hb), hm]
    rfl

theorem value_of_divRem (hb : b ≠ 0) {q r : SparsePoly}
    (h : (divRem a b precision).outcome = .ok (q, r)) :
    q = ofTerms (LongDivision.ofDivision a b precision).found.reverse ∧
      a.value = q.value * b.value + r.value := by
  obtain ⟨q', r', m, hq, hm, hsum, -, hout⟩ := outcome_divRem a hb precision
  rw [h, Except.ok.injEq, Prod.mk.injEq] at hout
  obtain ⟨rfl, rfl⟩ := hout
  rw [outcome_quotient hb, Except.ok.injEq] at hq
  refine ⟨hq.symm, ?_⟩
  rw [← hsum, value_add, value_of_mul? hm]

theorem degree?_quotient (ha : a ≠ 0) (hb : b ≠ 0) (hle : b.leadingExponent ≤ a.leadingExponent)
    {q : SparsePoly} (hq : (quotient a b precision).outcome = .ok q) :
    q.degree? = some (a.leadingExponent - b.leadingExponent) := by
  rw [outcome_quotient hb, Except.ok.injEq] at hq
  have hinv := LongDivision.invariant_ofDivision a hb precision
  have hmem := LongDivision.quotientTerm_mem_ofDivision ha hle precision
  rw [← List.mem_reverse, ← hinv.support, hq] at hmem
  have h0 : q ≠ 0 := by
    rintro rfl
    cases hmem
  have hge : a.leadingExponent - b.leadingExponent ≤ q.leadingExponent :=
    exponent_le_leadingExponent hmem
  have htop : q.leadingExponent + b.leadingExponent ≤ a.leadingExponent := by
    subst hq
    exact hinv.leadingExponent_le h0
  rw [degree?_eq_some h0]
  congr
  omega

theorem quotient_eq_zero (hb : b ≠ 0) (h : a = 0 ∨ a.leadingExponent < b.leadingExponent) :
    (quotient a b precision).outcome = .ok 0 := by
  rw [outcome_quotient hb, LongDivision.ofDivision_of_lt h]
  rfl

end SparsePoly
end DecimalPoly
