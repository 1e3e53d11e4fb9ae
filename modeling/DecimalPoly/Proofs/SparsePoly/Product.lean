import DecimalPoly.Proofs.SparsePoly.Leading

/-! Products of polynomials, where no exponent passes the limit, stand for products. -/
namespace DecimalPoly
open Polynomial

theorem Term.mul?_eq_some {s t : Term} (h : s.exponent + t.exponent ≤ maxExponent) :
    ∃ u, s.mul? t = some u ∧ u.value = s.value * t.value ∧
      u.exponent = s.exponent + t.exponent := by
  refine ⟨_, dif_pos h, ?_, rfl⟩
  simp only [Term.value, Decimal.toRat_mul, monomial_mul_monomial]

theorem valueOf_filterMap_mul {t : Term} {us : List Term}
    (h : ∀ u ∈ us, t.exponent + u.exponent ≤ maxExponent) :
    valueOf (us.filterMap t.mul?) = t.value * valueOf us := by
  induction us with
  | nil => simp
  | cons u us ih =>
    obtain ⟨hu, hus⟩ := List.forall_mem_cons.mp h
    obtain ⟨v, hv, hval, -⟩ := Term.mul?_eq_some hu
    rw [List.filterMap_cons_some hv, valueOf_cons, hval, ih hus, valueOf_cons, mul_add]

theorem valueOf_scale (ts : List Term) (c : Decimal) :
    valueOf (ts.map fun t => { t with coefficient := t.coefficient * c }) =
      valueOf ts * C c.toRat := by
  induction ts with
  | nil => simp
  | cons t ts ih =>
    rw [List.map_cons, valueOf_cons, ih, valueOf_cons, add_mul, Term.value, Term.value,
      monomial_mul_C, Decimal.toRat_mul]

namespace SparsePoly

theorem value_products {ss ts : List Term}
    (h : ∀ s ∈ ss, ∀ t ∈ ts, s.exponent + t.exponent ≤ maxExponent) :
    valueOf ((ss.flatMap fun s => ts.map fun t => (s, t)).filterMap fun (s, t) => s.mul? t) =
      valueOf ss * valueOf ts := by
  induction ss with
  | nil => simp
  | cons s ss ih =>
    obtain ⟨hs, hss⟩ := List.forall_mem_cons.mp h
    have hrow : ((ts.map fun t => (s, t)).filterMap fun (s, t) => s.mul? t) =
        ts.filterMap s.mul? := by
      rw [List.filterMap_map]
      rfl
    rw [List.flatMap_cons, List.filterMap_append, valueOf_append, hrow,
      valueOf_filterMap_mul hs, ih hss, valueOf_cons, add_mul]

theorem find?_pairs_eq_none {ss ts : List Term}
    (h : ∀ s ∈ ss, ∀ t ∈ ts, s.exponent + t.exponent ≤ maxExponent) :
    (ss.flatMap fun s => ts.map fun t => (s, t)).find?
      (fun (s, t) => maxExponent < s.exponent + t.exponent) = none := by
  rw [List.find?_eq_none]
  intro pair hpair
  obtain ⟨s, hs, hmap⟩ := List.mem_flatMap.mp hpair
  obtain ⟨t, ht, rfl⟩ := List.mem_map.mp hmap
  simpa using h s hs t ht

theorem mul?_eq_ok {p q : SparsePoly} (h : p.leadingExponent + q.leadingExponent ≤ maxExponent) :
    ∃ m, p.mul? q = .ok m ∧ m.value = p.value * q.value := by
  have hpairs (s : Term) (hs : s ∈ p.support) (t : Term) (ht : t ∈ q.support) :
      s.exponent + t.exponent ≤ maxExponent := by
    have := exponent_le_leadingExponent hs
    have := exponent_le_leadingExponent ht
    omega
  refine ⟨ofTerms ((pairs p q).filterMap fun (s, t) => s.mul? t), ?_, ?_⟩
  · simp only [mul?, pairs, find?_pairs_eq_none hpairs]
  · rw [value_ofTerms]
    exact value_products hpairs

theorem value_of_mul? {p q m : SparsePoly} (h : p.mul? q = .ok m) :
    m.value = p.value * q.value := by
  rw [mul?] at h
  split at h
  · cases h
  · next hfind =>
    cases h
    have hfit (s : Term) (hs : s ∈ p.support) (t : Term) (ht : t ∈ q.support) :
        s.exponent + t.exponent ≤ maxExponent := by
      have hpair : (s, t) ∈ pairs p q :=
        List.mem_flatMap.mpr ⟨s, hs, List.mem_map.mpr ⟨t, ht, rfl⟩⟩
      simpa using List.find?_eq_none.mp hfind (s, t) hpair
    rw [value_ofTerms]
    exact value_products hfit

theorem pairs_eq_cons {p q : SparsePoly} (hp : p ≠ 0) (hq : q ≠ 0) :
    ∃ rest, pairs p q = (p.leadingTerm, q.leadingTerm) :: rest := by
  rw [pairs, leadingTerm, leadingTerm]
  cases hs : p.support with
  | nil => exact absurd hs (support_ne_nil hp)
  | cons s ss =>
    cases ht : q.support with
    | nil => exact absurd ht (support_ne_nil hq)
    | cons t ts => exact ⟨_, rfl⟩

/-- The pair of leading terms is met first, and if any does not fit it is the one that is blamed. -/
theorem mul?_eq_error {p q : SparsePoly} (h : maxExponent < p.leadingExponent + q.leadingExponent) :
    p.mul? q = .error (.exponentOverflow p.leadingExponent q.leadingExponent) := by
  have hzero : ¬(p = 0 ∨ q = 0) := fun hz => (leadingExponent_add_le hz).not_gt h
  obtain ⟨hp, hq⟩ := not_or.mp hzero
  obtain ⟨rest, hpairs⟩ := pairs_eq_cons hp hq
  have hfind : (pairs p q).find? (fun (s, t) => maxExponent < s.exponent + t.exponent) =
      some (p.leadingTerm, q.leadingTerm) := by
    rw [hpairs]
    exact List.find?_cons_of_pos (decide_eq_true h)
  rw [mul?]
  simp only [hfind]
  rfl

theorem mul?_eq_ok_iff {p q m : SparsePoly} : p.mul? q = .ok m ↔
    p.leadingExponent + q.leadingExponent ≤ maxExponent ∧ m.value = p.value * q.value := by
  by_cases hfit : p.leadingExponent + q.leadingExponent ≤ maxExponent
  · obtain ⟨n, hn, hval⟩ := mul?_eq_ok hfit
    rw [hn, Except.ok.injEq, and_iff_right hfit, ← hval]
    exact ⟨fun h => congrArg value h.symm, fun h => (value_injective h).symm⟩
  · rw [mul?_eq_error (Nat.lt_of_not_le hfit)]
    simp [hfit]

theorem leadingExponent_of_mul? {p q m : SparsePoly} (hp : p ≠ 0) (hq : q ≠ 0)
    (h : p.mul? q = .ok m) : m.leadingExponent = p.leadingExponent + q.leadingExponent := by
  rw [← natDegree_value, value_of_mul? h, natDegree_mul (mt value_eq_zero.mp hp)
    (mt value_eq_zero.mp hq), natDegree_value, natDegree_value]

@[simp] theorem value_scalarMul (p : SparsePoly) (c : Decimal) :
    (p.scalarMul c).value = p.value * C c.toRat := by
  rw [scalarMul, value_ofTerms, valueOf_scale, value]

end SparsePoly
end DecimalPoly
