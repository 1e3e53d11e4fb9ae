import DecimalPoly.SparsePoly.Product
import DecimalPoly.Proofs.Decimal.Value
import Mathlib.Algebra.Polynomial.Degree.Domain
import Mathlib.Algebra.Polynomial.Degree.Operations

/-! The polynomial over the rationals that a list of terms stands for. Merging, collecting, negating
and multiplying lists of terms do the same to these polynomials, and a polynomial in descending form
is determined by what it stands for. -/
namespace DecimalPoly
open Polynomial

noncomputable def Term.value (t : Term) : ℚ[X] := monomial t.exponent t.coefficient.toRat

noncomputable def valueOf (ts : List Term) : ℚ[X] := (ts.map Term.value).sum

@[simp] theorem valueOf_nil : valueOf [] = 0 := rfl

@[simp] theorem valueOf_cons (t : Term) (ts : List Term) :
    valueOf (t :: ts) = t.value + valueOf ts := List.sum_cons

theorem valueOf_append (ss ts : List Term) : valueOf (ss ++ ts) = valueOf ss + valueOf ts := by
  simp [valueOf]

theorem Term.value_eq_zero {t : Term} : t.value = 0 ↔ t.coefficient = 0 := by
  rw [Term.value, monomial_eq_zero_iff, Decimal.toRat_eq_zero]

theorem Term.value_neg (t : Term) : (-t).value = -t.value := by
  change monomial t.exponent (-t.coefficient).toRat = _
  rw [Decimal.toRat_neg, map_neg, Term.value]

theorem valueOf_neg (ts : List Term) : valueOf (ts.map Term.neg) = -valueOf ts := by
  induction ts with
  | nil => simp
  | cons t ts ih =>
    rw [List.map_cons, valueOf_cons, ih, valueOf_cons, neg_add]
    exact congrArg (· + _) t.value_neg

theorem Term.coeff_value (t : Term) (e : Nat) :
    t.value.coeff e = if t.exponent = e then t.coefficient.toRat else 0 := coeff_monomial

theorem coeff_valueOf_of_forall_ne {ts : List Term} {e : Nat} (h : ∀ t ∈ ts, t.exponent ≠ e) :
    (valueOf ts).coeff e = 0 := by
  induction ts with
  | nil => simp
  | cons t ts ih =>
    have ⟨ht, hts⟩ := List.forall_mem_cons.mp h
    rw [valueOf_cons, coeff_add, Term.coeff_value, if_neg ht, ih hts, add_zero]

theorem coeff_valueOf_of_mem {ts : List Term} (hd : Descending ts) {t : Term} (ht : t ∈ ts) :
    (valueOf ts).coeff t.exponent = t.coefficient.toRat := by
  induction ts with
  | nil => cases ht
  | cons s ts ih =>
    obtain ⟨hs, hts⟩ := List.pairwise_cons.mp hd
    rw [valueOf_cons, coeff_add, Term.coeff_value]
    cases List.mem_cons.mp ht with
    | inl heq =>
      subst heq
      rw [if_pos rfl, coeff_valueOf_of_forall_ne fun u hu => (hs u hu).ne, add_zero]
    | inr ht => rw [if_neg (hs t ht).ne', ih hts ht, zero_add]

theorem exists_exponent_of_valueOf_eq {ss ts : List Term} (hs : Descending ss)
    (hs0 : ∀ s ∈ ss, s.coefficient ≠ 0) (h : valueOf ss = valueOf ts) {s : Term} (hmem : s ∈ ss) :
    ∃ t ∈ ts, t.exponent = s.exponent := by
  by_contra hno
  push Not at hno
  have hz := coeff_valueOf_of_forall_ne hno
  rw [← h, coeff_valueOf_of_mem hs hmem, Decimal.toRat_eq_zero] at hz
  exact hs0 s hmem hz

/-- The heads of two descending lists with one value agree, being its leading term. -/
theorem eq_of_valueOf_eq {ss ts : List Term} (hs : Descending ss) (ht : Descending ts)
    (hs0 : ∀ s ∈ ss, s.coefficient ≠ 0) (ht0 : ∀ t ∈ ts, t.coefficient ≠ 0)
    (h : valueOf ss = valueOf ts) : ss = ts := by
  induction ss generalizing ts with
  | nil =>
    cases ts with
    | nil => rfl
    | cons t ts =>
      obtain ⟨v, hv, -⟩ := exists_exponent_of_valueOf_eq ht ht0 h.symm List.mem_cons_self
      cases hv
  | cons s ss ih =>
    cases ts with
    | nil =>
      obtain ⟨v, hv, -⟩ := exists_exponent_of_valueOf_eq hs hs0 h List.mem_cons_self
      cases hv
    | cons t ts =>
      obtain ⟨hs1, hs2⟩ := List.pairwise_cons.mp hs
      obtain ⟨ht1, ht2⟩ := List.pairwise_cons.mp ht
      have hexp : s.exponent = t.exponent := by
        obtain ⟨v, hv, hvs⟩ := exists_exponent_of_valueOf_eq hs hs0 h List.mem_cons_self
        obtain ⟨u, hu, hut⟩ := exists_exponent_of_valueOf_eq ht ht0 h.symm List.mem_cons_self
        cases List.mem_cons.mp hv with
        | inl hv => exact (hv ▸ hvs).symm
        | inr hv =>
          cases List.mem_cons.mp hu with
          | inl hu => exact hu ▸ hut
          | inr hu =>
            have := ht1 v hv
            have := hs1 u hu
            omega
      have hcoeff : s.coefficient = t.coefficient := by
        apply Decimal.toRat_injective
        rw [← coeff_valueOf_of_mem hs List.mem_cons_self, h, hexp,
          coeff_valueOf_of_mem ht List.mem_cons_self]
      obtain rfl := Term.ext hcoeff hexp
      rw [valueOf_cons, valueOf_cons, add_right_inj] at h
      rw [ih hs2 ht2 (fun u hu => hs0 u (List.mem_cons_of_mem _ hu))
        (fun u hu => ht0 u (List.mem_cons_of_mem _ hu)) h]

namespace SparsePoly

noncomputable def value (p : SparsePoly) : ℚ[X] := valueOf p.support

theorem value_injective {p q : SparsePoly} (h : p.value = q.value) : p = q :=
  ext (eq_of_valueOf_eq p.descending q.descending p.nonzero q.nonzero h)

@[simp] theorem value_zero : (0 : SparsePoly).value = 0 := rfl

theorem value_eq_zero {p : SparsePoly} : p.value = 0 ↔ p = 0 :=
  ⟨fun h => value_injective (h.trans value_zero.symm), fun h => by rw [h, value_zero]⟩

theorem valueOf_merge (ss ts : List Term) : valueOf (merge ss ts) = valueOf ss + valueOf ts := by
  fun_induction merge ss ts with
  | case1 ts => simp
  | case2 ss => simp
  | case3 s ss t ts h ih => rw [valueOf_cons, ih, valueOf_cons s ss, add_assoc]
  | case4 s ss t ts h1 h2 ih =>
    rw [valueOf_cons, ih, valueOf_cons, valueOf_cons]
    ring
  | case5 s ss t ts h1 h2 c hc ih =>
    have hcancel : s.value + t.value = 0 := by
      rw [Term.value, Term.value, show t.exponent = s.exponent by omega, ← map_add,
        ← Decimal.toRat_add, Decimal.toRat_eq_zero.mpr hc, map_zero]
    rw [ih, valueOf_cons, valueOf_cons, add_add_add_comm, hcancel, zero_add]
  | case6 s ss t ts h1 h2 c hc ih =>
    have hjoin : ({ s with coefficient := c } : Term).value = s.value + t.value := by
      rw [Term.value, Term.value, Term.value, show t.exponent = s.exponent by omega, ← map_add,
        ← Decimal.toRat_add]
    rw [valueOf_cons, ih, hjoin, valueOf_cons, valueOf_cons, add_add_add_comm]

@[simp] theorem value_add (p q : SparsePoly) : (p + q).value = p.value + q.value :=
  valueOf_merge p.support q.support

@[simp] theorem value_ofTerm (t : Term) : (ofTerm t).value = t.value := by
  rw [ofTerm]
  split
  · next h => rw [value_zero, Term.value_eq_zero.mpr h]
  · simp [value]

@[simp] theorem value_one : (1 : SparsePoly).value = 1 := by
  change (ofTerm (Term.constant 1)).value = 1
  rw [value_ofTerm, Term.value, Term.constant, Decimal.toRat_one, monomial_zero_one]

theorem value_carry (p : SparsePoly) (places : List (Option SparsePoly)) :
    (total (carry p places)).value = (total places).value + p.value := by
  induction places generalizing p with
  | nil => simp [carry, total]
  | cons place places ih =>
    cases place with
    | none => simp [carry, total, add_comm]
    | some q =>
      have := ih (q + p)
      simp only [total, carry, List.foldr_cons, Option.getD_none, Option.getD_some, value_add,
        value_zero] at this ⊢
      rw [this]
      ring

@[simp] theorem value_ofTerms (ts : List Term) : (ofTerms ts).value = valueOf ts := by
  have step (places : List (Option SparsePoly)) :
      (total (ts.foldl (fun places t => carry (ofTerm t) places) places)).value =
        (total places).value + valueOf ts := by
    induction ts generalizing places with
    | nil => simp
    | cons t ts ih => rw [List.foldl_cons, ih, value_carry, value_ofTerm, valueOf_cons, add_assoc]
  have hz : (total []).value = 0 := rfl
  rw [ofTerms, step, hz, zero_add]

@[simp] theorem value_neg (p : SparsePoly) : (-p).value = -p.value := valueOf_neg p.support

@[simp] theorem value_sub (p q : SparsePoly) : (p - q).value = p.value - q.value := by
  rw [sub_eq_add_neg, ← value_neg, ← value_add]
  rfl

theorem valueOf_terms (p : SparsePoly) : valueOf p.terms = p.value := by
  rw [terms]
  split
  · next h =>
    have hz : (Term.constant 0).value = 0 := Term.value_eq_zero.mpr rfl
    rw [value, h, valueOf_cons, hz, zero_add]
  · rfl

theorem descending_terms (p : SparsePoly) : Descending p.terms := by
  rw [terms]
  split
  · exact List.pairwise_singleton ..
  · exact p.descending

theorem mem_terms_of_mem_support {p : SparsePoly} {t : Term} (h : t ∈ p.support) : t ∈ p.terms := by
  rwa [terms, if_neg (List.ne_nil_of_mem h)]

theorem ofTerms_terms (p : SparsePoly) : ofTerms p.terms = p :=
  value_injective (by rw [value_ofTerms, valueOf_terms])

end SparsePoly
end DecimalPoly
