import DecimalPoly.Proofs.SparsePoly.Collecting
import DecimalPoly.Proofs.SparsePoly.Convolution
import Mathlib.Algebra.Polynomial.BigOperators
import Mathlib.Data.List.TakeWhile

/-! Sums and products of lists. A sum does not depend on the order. A product that exists does not
either, but the order can decide whether it exists: from the first zero on everything is zero and
fits, while before it the leading exponents add up. -/
namespace DecimalPoly.SparsePoly
open Polynomial

def exponentSum (ps : List SparsePoly) : Nat := (ps.map leadingExponent).sum

def beforeZero (ps : List SparsePoly) : List SparsePoly := ps.takeWhile (· ≠ 0)

/-- With the factor `p` that follows `before`, and not earlier, the leading exponents add up to more
than the highest exponent. -/
structure PassesAt (ps before : List SparsePoly) (p : SparsePoly) : Prop where
  front : before ++ [p] <+: ps
  fits : exponentSum before ≤ maxExponent
  passes : maxExponent < exponentSum before + p.leadingExponent

section Sums
variable {ps qs : List SparsePoly}

theorem sum_eq_sum (ps : List SparsePoly) : sum ps = ps.sum := List.sum_eq_foldl.symm

theorem sum_eq_ofTerms (ps : List SparsePoly) : sum ps = ofTerms (ps.flatMap terms) := by
  rw [sum_eq_sum]
  induction ps with
  | nil => rfl
  | cons p ps ih => rw [List.sum_cons, ih, List.flatMap_cons, ofTerms_append, ofTerms_terms]

theorem sum_eq_of_perm (h : qs.Perm ps) : sum qs = sum ps := by
  rw [sum_eq_sum, sum_eq_sum, h.sum_eq]

theorem sum_row_eq (ps : List SparsePoly) :
    Plain.Row.sum (ps.map row) = Plain.Row.canonicalize (ps.map row).flatten := by
  have hterms : (ps.map row).flatten = Plain.Row.ofTerms (ps.flatMap terms) := by
    rw [Plain.Row.ofTerms, List.map_flatMap, List.flatMap_def]
    rfl
  rw [hterms, Plain.Row.canonicalize_ofTerms, ← sum_eq_ofTerms, row_sum]

end Sums

section Exponents
variable {ps qs before : List SparsePoly} {p : SparsePoly}

theorem exponentSum_append (ps qs : List SparsePoly) :
    exponentSum (ps ++ qs) = exponentSum ps + exponentSum qs := by
  rw [exponentSum, List.map_append, List.sum_append]
  rfl

theorem exponentSum_concat (ps : List SparsePoly) (p : SparsePoly) :
    exponentSum (ps ++ [p]) = exponentSum ps + p.leadingExponent := exponentSum_append ps [p]

theorem exponentSum_le_of_front (h : ps <+: qs) : exponentSum ps ≤ exponentSum qs := by
  obtain ⟨rest, rfl⟩ := h
  rw [exponentSum_append]
  exact Nat.le_add_right ..

theorem exponentSum_eq_of_perm (h : qs.Perm ps) : exponentSum qs = exponentSum ps :=
  (h.map leadingExponent).sum_eq

theorem exists_passesAt (h : maxExponent < exponentSum ps) : ∃ before p, PassesAt ps before p := by
  -- from the end, as the earlier factors decide whether the last one is the first to pass it
  induction ps using List.reverseRecOn with
  | nil => exact absurd h (Nat.not_lt_zero _)
  | append_singleton ps p ih =>
    by_cases hfit : exponentSum ps ≤ maxExponent
    · rw [exponentSum_concat] at h
      exact ⟨ps, p, List.prefix_rfl, hfit, h⟩
    · obtain ⟨before, q, hq⟩ := ih (Nat.lt_of_not_le hfit)
      exact ⟨before, q, hq.front.trans (List.prefix_append ..), hq.fits, hq.passes⟩

theorem beforeZero_front (ps : List SparsePoly) : beforeZero ps <+: ps := List.takeWhile_prefix _

theorem exponentSum_beforeZero_le (ps : List SparsePoly) :
    exponentSum (beforeZero ps) ≤ exponentSum ps := exponentSum_le_of_front (beforeZero_front ps)

theorem not_mem_beforeZero (ps : List SparsePoly) : 0 ∉ beforeZero ps := by
  intro hmem
  simpa using List.mem_takeWhile_imp hmem

theorem beforeZero_eq_self (h : 0 ∉ ps) : beforeZero ps = ps := by
  rw [beforeZero, List.takeWhile_eq_self_iff]
  intro p hp
  simp [ne_of_mem_of_not_mem hp h]

theorem beforeZero_append_zero (h : 0 ∉ ps) (rest : List SparsePoly) :
    beforeZero (ps ++ 0 :: rest) = ps := by
  have hne (p : SparsePoly) (hp : p ∈ ps) : decide (p ≠ 0) = true :=
    decide_eq_true (ne_of_mem_of_not_mem hp h)
  rw [beforeZero, List.takeWhile_append_of_pos hne, List.takeWhile_cons_of_neg (by decide),
    List.append_nil]

theorem PassesAt.not_mem (h : PassesAt ps before p) (hz : maxExponent < exponentSum (beforeZero ps)) :
    0 ∉ before := by
  have hfront : before <+: ps := (List.prefix_append before [p]).trans h.front
  -- of two fronts of a list, one continues the other
  obtain hle | hle := List.prefix_or_prefix_of_prefix hfront (beforeZero_front ps)
  · exact fun hmem => not_mem_beforeZero ps (hle.subset hmem)
  · exact absurd hz ((exponentSum_le_of_front hle).trans h.fits).not_gt

end Exponents

section Products
variable {ps qs : List SparsePoly} {acc p m n : SparsePoly}

theorem value_of_foldlM_mul? (h : ps.foldlM mul? acc = .ok m) :
    m.value = acc.value * (ps.map value).prod := by
  induction ps generalizing acc with
  | nil =>
    cases h
    rw [List.map_nil, List.prod_nil, mul_one]
  | cons p ps ih =>
    rw [List.foldlM_cons] at h
    obtain ⟨next, hnext, hm⟩ := bind_eq_ok.mp h
    rw [ih hm, value_of_mul? hnext, List.map_cons, List.prod_cons, mul_assoc]

theorem exists_foldlM_mul? (h : acc.leadingExponent + exponentSum ps ≤ maxExponent) :
    ∃ m, ps.foldlM mul? acc = .ok m := by
  induction ps generalizing acc with
  | nil => exact ⟨acc, rfl⟩
  | cons p ps ih =>
    rw [exponentSum, List.map_cons, List.sum_cons, ← exponentSum] at h
    obtain ⟨next, hnext, hval⟩ := mul?_eq_ok (p := acc) (q := p) (by omega)
    have hle : next.leadingExponent ≤ acc.leadingExponent + p.leadingExponent := by
      simp only [← natDegree_value, hval]
      exact natDegree_mul_le
    rw [List.foldlM_cons, hnext]
    exact ih (by omega)

theorem foldlM_mul?_zero (ps : List SparsePoly) : ps.foldlM mul? 0 = .ok 0 := by
  induction ps with
  | nil => rfl
  | cons p ps ih =>
    rw [List.foldlM_cons, mul?_comm.mp (mul?_zero p)]
    exact ih

theorem product?_append (ps qs : List SparsePoly) :
    product? (ps ++ qs) = product? ps >>= fun m => qs.foldlM mul? m := List.foldlM_append

theorem exists_product? (h : exponentSum ps ≤ maxExponent) : ∃ m, product? ps = .ok m := by
  apply exists_foldlM_mul?
  rwa [show leadingExponent 1 = 0 from rfl, Nat.zero_add]

theorem value_of_product? (h : product? ps = .ok m) : m.value = (ps.map value).prod := by
  rw [value_of_foldlM_mul? h, value_one, one_mul]

theorem zero_mem_map_value : (0 : ℚ[X]) ∈ ps.map value ↔ 0 ∈ ps := by
  rw [← value_zero, List.mem_map_of_injective fun _ _ => value_injective]

theorem product?_eq_zero_iff (h : product? ps = .ok m) : m = 0 ↔ 0 ∈ ps := by
  rw [← value_eq_zero, value_of_product? h, List.prod_eq_zero_iff, zero_mem_map_value]

theorem leadingExponent_of_product? (h0 : 0 ∉ ps) (h : product? ps = .ok m) :
    m.leadingExponent = exponentSum ps := by
  have hdegree := natDegree_multiset_prod (ps.map value : Multiset ℚ[X])
    (mt zero_mem_map_value.mp h0)
  rw [Multiset.prod_coe, ← value_of_product? h, natDegree_value, Multiset.map_coe, Multiset.sum_coe,
    List.map_map] at hdegree
  rw [hdegree, exponentSum]
  exact congrArg List.sum (List.map_congr_left fun p _ => natDegree_value p)

theorem product?_eq_of_perm (hp : qs.Perm ps) (hm : product? ps = .ok m) (hn : product? qs = .ok n) :
    n = m :=
  value_injective (by rw [value_of_product? hn, value_of_product? hm, (hp.map value).prod_eq])

theorem exists_product?_of_beforeZero (h : exponentSum (beforeZero ps) ≤ maxExponent) :
    ∃ m, product? ps = .ok m := by
  by_cases h0 : 0 ∈ ps
  · obtain ⟨before, after, rfl, hbefore⟩ := List.eq_append_cons_of_mem h0
    rw [beforeZero_append_zero hbefore] at h
    obtain ⟨m, hm⟩ := exists_product? h
    -- zero forgets the exponents so far
    rw [product?_append, hm]
    change ∃ n, (m.mul? 0 >>= fun z => after.foldlM mul? z) = .ok n
    rw [mul?_zero]
    exact ⟨0, foldlM_mul?_zero after⟩
  · rw [beforeZero_eq_self h0] at h
    exact exists_product? h

theorem PassesAt.product?_eq_error {before : List SparsePoly} (h : PassesAt ps before p)
    (h0 : 0 ∉ before) :
    product? ps = .error (.exponentOverflow (exponentSum before) p.leadingExponent) := by
  obtain ⟨m, hm⟩ := exists_product? h.fits
  have hexponent := leadingExponent_of_product? h0 hm
  have hlt : maxExponent < m.leadingExponent + p.leadingExponent := hexponent ▸ h.passes
  obtain ⟨after, rfl⟩ := h.front
  rw [List.append_assoc, product?_append, hm]
  change (m.mul? p >>= fun next => after.foldlM mul? next) = _
  rw [mul?_eq_error hlt, hexponent]
  rfl

theorem product?_eq_error_iff {e : Failure} : product? ps = .error e ↔
    maxExponent < exponentSum (beforeZero ps) ∧ ∃ before p, PassesAt ps before p ∧
      e = .exponentOverflow (exponentSum before) p.leadingExponent := by
  constructor
  · intro h
    have hlt : maxExponent < exponentSum (beforeZero ps) := by
      by_contra hle
      obtain ⟨m, hm⟩ := exists_product?_of_beforeZero (Nat.le_of_not_lt hle)
      rw [hm] at h
      cases h
    obtain ⟨before, p, hp⟩ := exists_passesAt (hlt.trans_le (exponentSum_beforeZero_le ps))
    rw [hp.product?_eq_error (hp.not_mem hlt), Except.error.injEq] at h
    exact ⟨hlt, before, p, hp, h.symm⟩
  · rintro ⟨hlt, before, p, hp, rfl⟩
    exact hp.product?_eq_error (hp.not_mem hlt)

theorem product_eq_error_iff {v : Violation} : product ps = .error v ↔
    maxExponent < exponentSum (beforeZero ps) ∧ ∃ before p, PassesAt ps before p ∧
      v = ⟨.product, .exponentOverflow (exponentSum before) p.leadingExponent⟩ := by
  rw [product, Demand.of, mapError_eq_error]
  simp only [product?_eq_error_iff]
  constructor
  · rintro ⟨e, ⟨hlt, before, p, hp, rfl⟩, rfl⟩
    exact ⟨hlt, before, p, hp, rfl⟩
  · rintro ⟨hlt, before, p, hp, rfl⟩
    exact ⟨_, ⟨hlt, before, p, hp, rfl⟩, rfl⟩

theorem exists_product_error_iff :
    (∃ v, product ps = .error v) ↔ maxExponent < exponentSum (beforeZero ps) := by
  constructor
  · rintro ⟨v, hv⟩
    exact (product_eq_error_iff.mp hv).1
  · intro hlt
    obtain ⟨before, p, hp⟩ := exists_passesAt (hlt.trans_le (exponentSum_beforeZero_le ps))
    exact ⟨_, product_eq_error_iff.mpr ⟨hlt, before, p, hp, rfl⟩⟩

end Products

/-- Sums collect the terms of all their elements. A product fails if the leading exponents of the
factors before the first zero are too high in total, and it is the factor that makes them so that is
blamed. Otherwise it is the product of the values: zero if a factor is, and else with the total for its
leading exponent. The order of the factors never changes a product, and only zero can make it decide
whether there is one. All this holds of the rows of terms that are shown. -/
theorem fold_laws (ps : List SparsePoly) :
    sum ps = ofTerms (ps.flatMap terms) ∧ (∀ qs, qs.Perm ps → sum qs = sum ps) ∧
    ((∃ v, product ps = .error v) ↔ maxExponent < exponentSum (beforeZero ps)) ∧
    (∀ v, product ps = .error v ↔ maxExponent < exponentSum (beforeZero ps) ∧
      ∃ before p, PassesAt ps before p ∧
        v = ⟨.product, .exponentOverflow (exponentSum before) p.leadingExponent⟩) ∧
    (∀ m, product ps = .ok m → m.value = (ps.map value).prod ∧
      (0 ∈ ps → m = 0) ∧ (0 ∉ ps → m ≠ 0 ∧ m.leadingExponent = exponentSum ps)) ∧
    (∀ qs rs m n, qs.Perm ps → rs.Perm ps → product qs = .ok m → product rs = .ok n → m = n) ∧
    (0 ∉ ps → ∀ qs, qs.Perm ps → ((∃ v, product qs = .error v) ↔ ∃ v, product ps = .error v)) ∧
    (sum ps).row = Plain.Row.sum (ps.map row) ∧
    Plain.Row.sum (ps.map row) = Plain.Row.canonicalize (ps.map row).flatten ∧
    Plain.Row.product? (ps.map row) = (product? ps).map row := by
  refine ⟨sum_eq_ofTerms ps, fun _ => sum_eq_of_perm, exists_product_error_iff,
    fun _ => product_eq_error_iff, fun m hm => ?_, fun qs rs m n hqs hrs hm hn => ?_,
    fun h0 qs hqs => ?_, row_sum ps, sum_row_eq ps, row_product? ps⟩
  · have hm := mapError_eq_ok.mp hm
    have hzero := product?_eq_zero_iff hm
    exact ⟨value_of_product? hm, hzero.mpr,
      fun h0 => ⟨mt hzero.mp h0, leadingExponent_of_product? h0 hm⟩⟩
  · exact product?_eq_of_perm (hqs.trans hrs.symm) (mapError_eq_ok.mp hn) (mapError_eq_ok.mp hm)
  · have h0' : 0 ∉ qs := mt hqs.mem_iff.mp h0
    rw [exists_product_error_iff, exists_product_error_iff, beforeZero_eq_self h0,
      beforeZero_eq_self h0', exponentSum_eq_of_perm hqs]

/-- Factors of half the highest degree and one more, with zero behind them, between them and in front,
and with another factor in front or behind. -/
theorem fold_laws_reordered :
    let x : SparsePoly := ofTerm ⟨1, 2147483648, by decide⟩
    let p : SparsePoly := ofTerms [⟨1, 1, by decide⟩, ⟨1, 0, by decide⟩]
    let q : SparsePoly := ofTerms [⟨1, 1, by decide⟩, ⟨.ofInt (-1), 0, by decide⟩]
    let m : SparsePoly := ofTerms [⟨1, 2, by decide⟩, ⟨.ofInt (-1), 0, by decide⟩]
    product [x, x, 0] = .error ⟨.product, .exponentOverflow 2147483648 2147483648⟩ ∧
      product [x, 0, x] = .ok 0 ∧ (∀ n, product [0, x, x] = .ok n → n = 0) ∧
      product [x, x, p] = .error ⟨.product, .exponentOverflow 2147483648 2147483648⟩ ∧
      product [p, x, x] = .error ⟨.product, .exponentOverflow 2147483649 2147483648⟩ ∧
      (∃ v, product [x, p, x] = .error v) ∧
      product [p, q] = .ok m ∧ m.value = [p.value, q.value].prod ∧
      m ≠ 0 ∧ m.leadingExponent = exponentSum [p, q] ∧
      (∀ n, product [q, p] = .ok n → n = m) ∧ sum [q, p] = sum [p, q] := by
  intro x p q m
  have hpass : PassesAt [x, x, 0] [x] x := ⟨⟨[0], rfl⟩, by decide, by decide⟩
  have hlast : product [x, x, p] = .error ⟨.product, .exponentOverflow 2147483648 2147483648⟩ := by
    decide +kernel
  have hm : product [p, q] = .ok m := by decide +kernel
  obtain ⟨-, -, -, herror, -⟩ := fold_laws [x, x, 0]
  obtain ⟨-, -, -, -, habsorbed, -⟩ := fold_laws [0, x, x]
  obtain ⟨-, -, -, -, -, -, htogether, -⟩ := fold_laws [x, x, p]
  obtain ⟨-, hsum, -, -, hok, hunique, -⟩ := fold_laws [p, q]
  obtain ⟨hvalue, -, hleading⟩ := hok m hm
  obtain ⟨hne, hexponent⟩ := hleading (by decide +kernel)
  refine ⟨(herror _).mpr ⟨by decide, [x], x, hpass, rfl⟩, by decide +kernel, fun n hn => ?_, hlast,
    by decide +kernel, ?_, hm, hvalue, hne, hexponent, fun n hn => ?_, hsum _ (.swap ..)⟩
  · exact (habsorbed n hn).2.1 (by decide)
  · exact (htogether (by decide +kernel) _ (by decide +kernel)).mpr ⟨_, hlast⟩
  · exact hunique [q, p] [p, q] n m (.swap ..) (.refl _) hn hm

end DecimalPoly.SparsePoly
