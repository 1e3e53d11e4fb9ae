import DecimalPoly.Proofs.Decimal.Ring
import DecimalPoly.Proofs.Plain.Division
import Mathlib.Algebra.Order.BigOperators.Group.LocallyFinite

/-! What rounding leaves from the divisor's degree up. Each coefficient of the quotient is the rounded
quotient of what the multiples of the divisor for the higher exponents have left of the dividend, and
no later multiple reaches that exponent. So the remainder, which is formed from the whole product, has
there what was left at the step itself: half a unit in the last place of the quotient's coefficient at
most, times the divisor's leading coefficient. -/
namespace DecimalPoly
open Polynomial

namespace LongDivision
variable {a b : SparsePoly} {precision n e : Nat} {s : LongDivision} {t : Term} {x : Decimal}

/-- The coefficient found at `e` is the rounded quotient of `x`, of which the rest is left. -/
structure Settled (b : SparsePoly) (precision e : Nat) (s : LongDivision) (x : Decimal) : Prop where
  found : (valueOf s.found).coeff e = (x.div b.leadingCoefficient precision).toRat
  left : s.left.coefficient (b.leadingExponent + e) =
    x - x.div b.leadingCoefficient precision * b.leadingCoefficient

theorem settled_zero (hfound : (valueOf s.found).coeff e = 0)
    (hleft : s.left.coefficient (b.leadingExponent + e) = 0) : Settled b precision e s 0 := by
  have hq : (0 : Decimal).div b.leadingCoefficient precision = 0 := if_pos (.inl rfl)
  refine ⟨by rw [hfound, hq, Decimal.toRat_zero], ?_⟩
  rw [hleft, hq, zero_mul, sub_zero]

section Step
variable (hmem : t ∈ s.left.support) (he : t.exponent = b.leadingExponent + n)
include hmem he

theorem left_step (hb : b ≠ 0) (precision : Nat) :
    (s.step b precision t).left.coefficient (b.leadingExponent + n) = t.coefficient -
        t.coefficient.div b.leadingCoefficient precision * b.leadingCoefficient ∧
      ∀ e, n < e → (s.step b precision t).left.coefficient (b.leadingExponent + e) =
        s.left.coefficient (b.leadingExponent + e) := by
  have hexp : (quotientTerm b precision t).exponent = n := Nat.sub_eq_of_eq_add' he
  have hfit : (quotientTerm b precision t).exponent + b.leadingExponent ≤ maxExponent :=
    (exponent_quotientTerm precision (he ▸ Nat.le_add_right ..)).trans_le t.exponent_le
  constructor
  · have htop := SparsePoly.coefficient_mulTerm hfit b.leadingExponent
    rw [hexp, SparsePoly.coefficient_leadingExponent hb] at htop
    rw [LongDivision.step, SparsePoly.coefficient_sub, htop, ← he,
      SparsePoly.coefficient_of_mem hmem]
    rfl
  · intro e hlt
    rw [LongDivision.step, SparsePoly.coefficient_sub,
      SparsePoly.coefficient_mulTerm_eq_zero hfit, sub_zero]
    intro u hu
    have := SparsePoly.exponent_le_leadingExponent hu
    omega

theorem Invariant.settled_step (hb : b ≠ 0)
    (h : Invariant a b (b.leadingExponent + (n + 1)) s) :
    Settled b precision n (s.step b precision t) t.coefficient :=
  ⟨(h.coeff_found_step precision he).1, (left_step hmem he hb precision).1⟩

theorem Invariant.settled_step_of_lt (hb : b ≠ 0)
    (h : Invariant a b (b.leadingExponent + (n + 1)) s) (hlt : n < e)
    (hx : Settled b precision e s x) : Settled b precision e (s.step b precision t) x where
  found := ((h.coeff_found_step precision he).2 e hlt).trans hx.found
  left := ((left_step hmem he hb precision).2 e hlt).trans hx.left

end Step

theorem Invariant.settled_run (hb : b ≠ 0) (h : Invariant a b (b.leadingExponent + n) s)
    (hs : ∀ e, n ≤ e → ∃ x, Settled b precision e s x) :
    ∀ e, 0 ≤ e → ∃ x, Settled b precision e
      (LongDivision.run b precision (b.leadingExponent + n) s) x := by
  refine Invariant.run_induction (motive := fun n s => ∀ e, n ≤ e → ∃ x, Settled b precision e s x)
    hb ?skip ?step h hs
  case skip =>
    intro n s hinv hs hz e he
    cases Nat.eq_or_lt_of_le he with
    | inl heq =>
      subst heq
      exact ⟨0, settled_zero hinv.coeff_found hz⟩
    | inr hlt => exact hs e hlt
  case step =>
    intro n s t hinv hs hmem hexp e he
    cases Nat.eq_or_lt_of_le he with
    | inl heq =>
      subst heq
      exact ⟨t.coefficient, hinv.settled_step hmem hexp hb⟩
    | inr hlt =>
      obtain ⟨x, hx⟩ := hs e hlt
      exact ⟨x, hinv.settled_step_of_lt hmem hexp hb hlt hx⟩

theorem settled_ofDivision (a : SparsePoly) (hb : b ≠ 0) (precision e : Nat) :
    ∃ x, Settled b precision e (ofDivision a b precision) x := by
  rw [ofDivision_eq_run]
  refine (Invariant.start a b _).settled_run hb (fun e he => ⟨0, ?_⟩) e (Nat.zero_le e)
  have habove : a.leadingExponent < b.leadingExponent + e := by omega
  exact settled_zero (coeff_zero e) (SparsePoly.coefficient_eq_zero_of_lt habove)

end LongDivision

namespace SparsePoly
variable {a b q r : SparsePoly} {precision e : Nat}

/-- What the multiples of the divisor leave of the dividend at `e`, taken for the terms of the
quotient above the one that reaches `e` with the divisor's leading term. -/
def pending (a b q : SparsePoly) (e : Nat) : Decimal :=
  a.coefficient e - ∑ j ∈ Finset.Ioc (e - b.leadingExponent) e, q.coefficient j * b.coefficient (e - j)

theorem toRat_sum_coefficients (q b : SparsePoly) (s : Finset ℕ) (e : Nat) :
    (∑ j ∈ s, q.coefficient j * b.coefficient (e - j)).toRat =
      ∑ j ∈ s, q.value.coeff j * b.value.coeff (e - j) := by
  simp only [coeff_value, ← Decimal.toRat_mul]
  exact map_sum Decimal.toRatHom _ s

theorem coeff_mul_value (q b : SparsePoly) (he : b.leadingExponent ≤ e) :
    (q.value * b.value).coeff e =
      (q.coefficient (e - b.leadingExponent) * b.coefficient b.leadingExponent +
        ∑ j ∈ Finset.Ioc (e - b.leadingExponent) e, q.coefficient j * b.coefficient (e - j)).toRat := by
  have hdegree : e - (e - b.leadingExponent) = b.leadingExponent := by omega
  have hsubset : Finset.Icc (e - b.leadingExponent) e ⊆ Finset.range e.succ := by
    intro j hj
    rw [Finset.mem_range]
    exact Nat.lt_succ_of_le (Finset.mem_Icc.mp hj).2
  -- the pair with the leading term of `b` comes first, and `b` has nothing above it
  have hfirst := Finset.add_sum_Ioc_eq_sum_Icc (Nat.sub_le e b.leadingExponent)
    (f := fun j => q.coefficient j * b.coefficient (e - j))
  rw [hdegree] at hfirst
  rw [hfirst, toRat_sum_coefficients, coeff_mul,
    Finset.Nat.sum_antidiagonal_eq_sum_range_succ fun i j => q.value.coeff i * b.value.coeff j]
  refine (Finset.sum_subset hsubset fun j hj hout => ?_).symm
  have hbelow : j < e - b.leadingExponent := by
    rw [Finset.mem_range] at hj
    rw [Finset.mem_Icc] at hout
    omega
  have hz : b.coefficient (e - j) = 0 := coefficient_eq_zero_of_lt (by omega)
  rw [coeff_value b, hz, Decimal.toRat_zero, mul_zero]

theorem remainder_eq_left (hb : b ≠ 0) (h : (divRem a b precision).outcome = .ok (q, r)) :
    r = (LongDivision.ofDivision a b precision).left := by
  obtain ⟨hq, hsum⟩ := value_of_divRem hb h
  have hinv := (LongDivision.invariant_ofDivision a hb precision).value
  rw [← hq, hsum] at hinv
  exact value_injective (add_left_cancel hinv).symm

theorem coefficient_remainder (hb : b ≠ 0) (h : (divRem a b precision).outcome = .ok (q, r))
    (he : b.leadingExponent ≤ e) : r.coefficient e =
      pending a b q e - q.coefficient (e - b.leadingExponent) * b.leadingCoefficient := by
  obtain ⟨-, hsum⟩ := value_of_divRem hb h
  have hcoeff : a.coefficient e =
      q.coefficient (e - b.leadingExponent) * b.leadingCoefficient +
        ∑ j ∈ Finset.Ioc (e - b.leadingExponent) e, q.coefficient j * b.coefficient (e - j) +
          r.coefficient e := by
    apply Decimal.toRat_injective
    rw [Decimal.toRat_add, ← coeff_value a, ← coeff_value r, hsum, coeff_add, coeff_mul_value q b he,
      coefficient_leadingExponent hb]
  rw [pending, hcoeff]
  ring

theorem coefficient_quotient (hb : b ≠ 0) (h : (divRem a b precision).outcome = .ok (q, r))
    (he : b.leadingExponent ≤ e) : q.coefficient (e - b.leadingExponent) =
      (pending a b q e).div b.leadingCoefficient precision := by
  obtain ⟨x, hfound, hleft⟩ := LongDivision.settled_ofDivision a hb precision
    (e - b.leadingExponent)
  obtain ⟨hq, -⟩ := value_of_divRem hb h
  have hx : q.coefficient (e - b.leadingExponent) = x.div b.leadingCoefficient precision := by
    apply Decimal.toRat_injective
    rw [← hfound, ← coeff_value, hq, value_ofTerms, valueOf_reverse]
  rw [← remainder_eq_left hb h, Nat.add_sub_cancel' he, coefficient_remainder hb h he, ← hx,
    sub_left_inj] at hleft
  rw [hleft, hx]

theorem coefficient_remainder_of_lt (hb : b ≠ 0) (h : (divRem a b precision).outcome = .ok (q, r))
    (he : ∀ m, a.degree? = some m → m < e) : r.coefficient e = 0 := by
  rw [remainder_eq_left hb h]
  by_cases ha : a = 0
  · rw [LongDivision.ofDivision_of_lt (.inl ha), ha]
    rfl
  · exact (LongDivision.invariant_ofDivision a hb precision).below e (he _ (degree?_eq_some ha))

/-- What the remainder has from the divisor's degree up is what rounding left: little against the
coefficient of the quotient there, and nothing unless that coefficient was rounded, because it takes
more digits than were asked for. Above the dividend's degree the remainder has no terms. -/
theorem divRem_residue_bound (a : SparsePoly) (hb : b ≠ 0) (hp : 1 ≤ precision) :
    ∃ q r, (divRem a b precision).outcome = .ok (q, r) ∧
      a.row.divRem b.row precision = .ok (q.row, r.row) ∧
      (∀ e, b.leadingExponent ≤ e → 2 * 10 ^ (precision - 1) * |(r.coefficient e).toRat| ≤
        |b.leadingCoefficient.toRat| * |(q.coefficient (e - b.leadingExponent)).toRat|) ∧
      (∀ e, b.leadingExponent ≤ e →
        let exact := (pending a b q e).toRat / b.leadingCoefficient.toRat
        (r.coefficient e ≠ 0 ↔ (q.coefficient (e - b.leadingExponent)).toRat ≠ exact) ∧
        (r.coefficient e ≠ 0 ↔ ¬Decimal.FitsDigits precision exact)) ∧
      ∀ e, (∀ m, a.degree? = some m → m < e) → r.coefficient e = 0 := by
  obtain ⟨q, r, -, -, -, -, -, hout⟩ := outcome_divRem a hb precision
  have hdense := Plain.Row.divRem_row a b precision
  rw [hout] at hdense
  have hlead := leadingCoefficient_ne_zero hb
  refine ⟨q, r, hout, hdense, fun e he => ?_, fun e he => ⟨not_congr ?_, not_congr ?_⟩,
    fun e => coefficient_remainder_of_lt hb hout⟩
  · have hbound := Decimal.abs_sub_div_mul_le (pending a b q e) hlead precision
    rwa [← coefficient_quotient hb hout he, ← coefficient_remainder hb hout he,
      Nat.max_eq_right hp] at hbound
  · rw [coefficient_remainder hb hout he, eq_div_iff (mt Decimal.toRat_eq_zero.mp hlead),
      ← Decimal.toRat_mul, sub_eq_zero, Decimal.toRat_inj, eq_comm]
  · rw [coefficient_remainder hb hout he, coefficient_quotient hb hout he,
      Decimal.sub_div_mul_eq_zero_iff _ hlead, Nat.max_eq_right hp]

/-- To two digits, a third leaves a hundredth at the dividend's own exponent. The next coefficient
has two digits and leaves nothing. -/
theorem divRem_residue_bound_thirds :
    let a := ofTerm ⟨1, 2, by decide⟩
    let b : SparsePoly := ⟨[⟨.ofInt 3, 1, by decide⟩, ⟨1, 0, by decide⟩],
      by simp [Descending], by decide⟩
    let q : SparsePoly := ⟨[⟨.ofScaled 33 2, 1, by decide⟩, ⟨.ofScaled (-11) 2, 0, by decide⟩],
      by simp [Descending], by decide⟩
    let r : SparsePoly := ⟨[⟨.ofScaled 1 2, 2, by decide⟩, ⟨.ofScaled 11 2, 0, by decide⟩],
      by simp [Descending], by decide⟩
    b ≠ 0 ∧ (divRem a b 2).outcome = .ok (q, r) ∧
      2 * 10 ^ (2 - 1) * |(r.coefficient 2).toRat| ≤
        |b.leadingCoefficient.toRat| * |(q.coefficient (2 - 1)).toRat| ∧
      r.coefficient 2 ≠ 0 ∧
      ¬Decimal.FitsDigits 2 ((pending a b q 2).toRat / b.leadingCoefficient.toRat) ∧
      r.coefficient 1 = 0 ∧
      Decimal.FitsDigits 2 ((pending a b q 1).toRat / b.leadingCoefficient.toRat) ∧
      r.coefficient 3 = 0 := by
  intro a b q r
  have hb : b ≠ 0 := by decide
  have hout : (divRem a b 2).outcome = .ok (q, r) := by decide +kernel
  have h2 : r.coefficient 2 ≠ 0 := by decide
  have h1 : r.coefficient 1 = 0 := by decide
  have hp : 1 ≤ 2 := by decide
  obtain ⟨q', r', hout', -, hbound, hrounded, htop⟩ := divRem_residue_bound a hb hp
  rw [hout, Except.ok.injEq, Prod.mk.injEq] at hout'
  obtain ⟨rfl, rfl⟩ := hout'
  refine ⟨hb, hout, hbound 2 (by decide), h2, (hrounded 2 (by decide)).2.mp h2, h1, ?_, ?_⟩
  · by_contra hfits
    exact (hrounded 1 (by decide)).2.mpr hfits h1
  · refine htop 3 fun m hm => ?_
    obtain rfl : 2 = m := Option.some.inj hm
    decide

end SparsePoly
end DecimalPoly
