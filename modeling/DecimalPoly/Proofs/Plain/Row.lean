import DecimalPoly.Proofs.Plain.Number
import DecimalPoly.Proofs.SparsePoly.Value

/-! Polynomials as bare rows of coefficients and exponents. Nothing holds of a row by its type: that
exponents fall, that no coefficient is zero and that every coefficient is in lowest terms is what
`canonicalize` brings about. A canonical row shows one polynomial, and a row that is canonicalized
shows the polynomial it stands for. -/
namespace DecimalPoly.Plain
open Polynomial

structure Entry where
  coefficient : Number
  exponent : Nat
deriving DecidableEq

def Entry.ofTerm (t : Term) : Entry := ⟨.ofDecimal t.coefficient, t.exponent⟩

abbrev Row := List Entry

namespace Row

def zero : Row := [⟨.zero, 0⟩]

def ofTerms (ts : List Term) : Row := ts.map Entry.ofTerm

/-- Adds an entry to sums that are kept by ascending exponent. A new exponent starts from zero. -/
def accumulate (t : Entry) : Row → Row
  | [] => [⟨Number.zero.add t.coefficient, t.exponent⟩]
  | u :: us =>
    if t.exponent < u.exponent then ⟨Number.zero.add t.coefficient, t.exponent⟩ :: u :: us
    else if u.exponent < t.exponent then u :: accumulate t us
    else ⟨u.coefficient.add t.coefficient, u.exponent⟩ :: us

def sums (ts : Row) : Row := ts.foldl (fun us t => accumulate t us) []

def canonicalize (ts : Row) : Row :=
  match (sums ts).reverse.filter fun t => !t.coefficient.isZero with
  | [] => zero
  | t :: us => t :: us

def Descending (r : Row) : Prop := r.Pairwise fun t u => u.exponent < t.exponent

structure Canonical (r : Row) : Prop where
  form : r = zero ∨ r ≠ [] ∧ Descending r ∧ ∀ t ∈ r, t.coefficient.isZero = false
  lowest : ∀ t ∈ r, t.coefficient.Lowest
  exponent_le : ∀ t ∈ r, t.exponent ≤ maxExponent

noncomputable def value (r : Row) : ℚ[X] :=
  (r.map fun t => monomial t.exponent t.coefficient.toRat).sum

@[simp] theorem value_nil : value [] = 0 := rfl

@[simp] theorem value_cons (t : Entry) (r : Row) :
    value (t :: r) = monomial t.exponent t.coefficient.toRat + value r := List.sum_cons

theorem value_ofTerms (ts : List Term) : value (ofTerms ts) = valueOf ts := by
  rw [value, ofTerms, List.map_map, valueOf]
  rfl

theorem ofTerms_cons (t : Term) (ts : List Term) : ofTerms (t :: ts) = .ofTerm t :: ofTerms ts := rfl

theorem ofTerms_concat (ts : List Term) (t : Term) : ofTerms (ts ++ [t]) = ofTerms ts ++ [.ofTerm t] :=
  List.map_append

theorem value_zero : value zero = 0 := by simp [zero, Number.toRat_zero]

theorem mem_accumulate {t v : Entry} {us : Row} (h : v ∈ accumulate t us) :
    v ∈ us ∨ v.coefficient.Lowest ∧ v.exponent = t.exponent := by
  induction us with
  | nil =>
    rw [List.mem_singleton.mp h]
    exact .inr ⟨Number.lowest_add .., rfl⟩
  | cons u us ih =>
    rw [accumulate] at h
    split at h
    · cases List.mem_cons.mp h with
      | inl hv => exact .inr (hv ▸ ⟨Number.lowest_add .., rfl⟩)
      | inr hv => exact .inl hv
    split at h
    · cases List.mem_cons.mp h with
      | inl hv => exact .inl (hv ▸ List.mem_cons_self)
      | inr hv => exact (ih hv).imp_left (List.mem_cons_of_mem _)
    · cases List.mem_cons.mp h with
      | inl hv =>
        subst hv
        exact .inr ⟨Number.lowest_add .., by simp only; omega⟩
      | inr hv => exact .inl (List.mem_cons_of_mem _ hv)

theorem ascending_accumulate {us : Row} (t : Entry)
    (h : us.Pairwise fun u v => u.exponent < v.exponent) :
    (accumulate t us).Pairwise fun u v => u.exponent < v.exponent := by
  induction us with
  | nil => exact List.pairwise_singleton ..
  | cons u us ih =>
    obtain ⟨hu, hus⟩ := List.pairwise_cons.mp h
    rw [accumulate]
    split
    · next hlt =>
      refine List.pairwise_cons.mpr ⟨fun v hv => ?_, h⟩
      cases List.mem_cons.mp hv with
      | inl hv => exact hv ▸ hlt
      | inr hv => exact hlt.trans (hu v hv)
    split
    · next hlt =>
      refine List.pairwise_cons.mpr ⟨fun v hv => ?_, ih hus⟩
      cases mem_accumulate hv with
      | inl hv => exact hu v hv
      | inr hv => exact hv.2 ▸ hlt
    · exact List.pairwise_cons.mpr ⟨hu, hus⟩

theorem value_accumulate (t : Entry) (us : Row) :
    value (accumulate t us) = value us + monomial t.exponent t.coefficient.toRat := by
  have hfresh : (Number.zero.add t.coefficient).toRat = t.coefficient.toRat := by
    rw [Number.toRat_add, Number.toRat_zero, zero_add]
  induction us with
  | nil => rw [accumulate, value_cons, value_nil, hfresh, add_comm]
  | cons u us ih =>
    rw [accumulate]
    split
    · rw [value_cons, hfresh, add_comm]
    split
    · rw [value_cons, ih, value_cons, add_assoc]
    · have he : t.exponent = u.exponent := by omega
      rw [value_cons, value_cons, Number.toRat_add, map_add, he]
      ring

theorem ascending_sums (ts : Row) : (sums ts).Pairwise fun u v => u.exponent < v.exponent :=
  List.foldlRecOn ts _ .nil fun _ h t _ => ascending_accumulate t h

theorem mem_sums {ts : Row} {v : Entry} (h : v ∈ sums ts) :
    v.coefficient.Lowest ∧ ∃ t ∈ ts, v.exponent = t.exponent := by
  have hall : ∀ u ∈ sums ts, u.coefficient.Lowest ∧ ∃ t ∈ ts, u.exponent = t.exponent := by
    apply List.foldlRecOn (motive := fun us : Row =>
      ∀ u ∈ us, u.coefficient.Lowest ∧ ∃ t ∈ ts, u.exponent = t.exponent)
    · simp
    · intro us ih t ht u hu
      cases mem_accumulate hu with
      | inl hu => exact ih u hu
      | inr hu => exact ⟨hu.1, t, ht, hu.2⟩
  exact hall v h

theorem value_sums (ts : Row) : value (sums ts) = value ts := by
  have hfrom (us : Row) : value (ts.foldl (fun us t => accumulate t us) us) =
      value us + value ts := by
    induction ts generalizing us with
    | nil => simp
    | cons t ts ih => rw [List.foldl_cons, ih, value_accumulate, value_cons, add_assoc]
  rw [sums, hfrom, value_nil, zero_add]

theorem value_reverse (r : Row) : value r.reverse = value r := by
  rw [value, List.map_reverse, List.sum_reverse, value]

theorem value_filter (r : Row) : value (r.filter fun t => !t.coefficient.isZero) = value r := by
  induction r with
  | nil => rfl
  | cons t r ih =>
    cases ht : t.coefficient.isZero with
    | true =>
      rw [List.filter_cons_of_neg (by simp [ht]), ih, value_cons, Number.toRat_eq_zero.mpr ht,
        map_zero, zero_add]
    | false => rw [List.filter_cons_of_pos (by simp [ht]), value_cons, value_cons, ih]

theorem value_canonicalize (ts : Row) : value (canonicalize ts) = value ts := by
  have hkept := (value_filter (sums ts).reverse).trans ((value_reverse _).trans (value_sums ts))
  rw [canonicalize]
  split
  · next h => rw [value_zero, ← hkept, h, value_nil]
  · next h => rw [← hkept, h]

theorem canonical_zero : Canonical zero where
  form := .inl rfl
  lowest := by decide
  exponent_le := by decide

theorem canonical_canonicalize {ts : Row} (h : ∀ t ∈ ts, t.exponent ≤ maxExponent) :
    (canonicalize ts).Canonical := by
  rw [canonicalize]
  split
  · exact canonical_zero
  · next t us hkept =>
    have hmem (v : Entry) (hv : v ∈ t :: us) : v ∈ sums ts ∧ v.coefficient.isZero = false := by
      rw [← hkept, List.mem_filter, List.mem_reverse] at hv
      simpa using hv
    constructor
    case form =>
      refine .inr ⟨List.cons_ne_nil t us, ?_, fun v hv => (hmem v hv).2⟩
      rw [← hkept]
      exact (List.pairwise_reverse.mpr (ascending_sums ts)).filter _
    case lowest => exact fun v hv => (mem_sums (hmem v hv).1).1
    case exponent_le =>
      intro v hv
      obtain ⟨-, u, hu, he⟩ := mem_sums (hmem v hv).1
      exact he.trans_le (h u hu)

example : canonicalize [⟨⟨5, 1⟩, 2⟩, ⟨⟨7, 0⟩, 1⟩, ⟨⟨5, 1⟩, 2⟩, ⟨⟨-7, 0⟩, 1⟩] = [⟨⟨1, 0⟩, 2⟩] := by
  decide

end Row
end DecimalPoly.Plain

namespace DecimalPoly.SparsePoly
open Plain

/-- The terms that are shown, with what they are made of and nothing else. -/
def row (p : SparsePoly) : Row := Row.ofTerms p.terms

theorem value_row (p : SparsePoly) : p.row.value = p.value := by
  rw [row, Row.value_ofTerms, valueOf_terms]

theorem row_zero : (0 : SparsePoly).row = Row.zero := rfl

theorem terms_of_ne_zero {p : SparsePoly} (h : p ≠ 0) : p.terms = p.support :=
  if_neg fun hn => h (ext hn)

theorem row_of_ne_zero {p : SparsePoly} (h : p ≠ 0) : p.row = Row.ofTerms p.support := by
  rw [row, terms_of_ne_zero h]

theorem canonical_row (p : SparsePoly) : p.row.Canonical := by
  constructor
  case form =>
    by_cases h : p = 0
    · exact .inl (h ▸ row_zero)
    · have hs : p.support ≠ [] := fun hn => h (ext hn)
      rw [row_of_ne_zero h]
      refine .inr ⟨by simpa [Row.ofTerms] using hs, List.pairwise_map.mpr p.descending, ?_⟩
      intro t ht
      obtain ⟨u, hu, rfl⟩ := List.mem_map.mp ht
      rw [Bool.eq_false_iff]
      exact mt (Number.isZero_ofDecimal _).mp (p.nonzero u hu)
  case lowest =>
    intro t ht
    obtain ⟨u, -, rfl⟩ := List.mem_map.mp ht
    exact Number.lowest_ofDecimal _
  case exponent_le =>
    intro t ht
    obtain ⟨u, -, rfl⟩ := List.mem_map.mp ht
    exact u.exponent_le

end DecimalPoly.SparsePoly

namespace DecimalPoly.Plain.Row

theorem exists_terms {r : Row} (hl : ∀ t ∈ r, t.coefficient.Lowest)
    (he : ∀ t ∈ r, t.exponent ≤ maxExponent) : ∃ ts, ofTerms ts = r := by
  induction r with
  | nil => exact ⟨[], rfl⟩
  | cons t r ih =>
    obtain ⟨ht, hls⟩ := List.forall_mem_cons.mp hl
    obtain ⟨hle, hes⟩ := List.forall_mem_cons.mp he
    obtain ⟨ts, rfl⟩ := ih hls hes
    exact ⟨⟨⟨t.coefficient.mantissa, t.coefficient.scale, ht⟩, t.exponent, hle⟩ :: ts, rfl⟩

theorem Canonical.exists_row {r : Row} (h : r.Canonical) : ∃ p : SparsePoly, p.row = r := by
  cases h.form with
  | inl hz => exact ⟨0, hz.symm⟩
  | inr hform =>
    obtain ⟨hne, hdesc, hnonzero⟩ := hform
    obtain ⟨ts, rfl⟩ := exists_terms h.lowest h.exponent_le
    have hts : ts ≠ [] := by rintro rfl; exact hne rfl
    refine ⟨⟨ts, List.pairwise_map.mp hdesc, fun t ht h0 => ?_⟩, ?_⟩
    · have := hnonzero _ (List.mem_map_of_mem ht)
      rw [Entry.ofTerm, (Number.isZero_ofDecimal _).mpr h0] at this
      cases this
    · rw [SparsePoly.row, SparsePoly.terms, if_neg hts]

theorem canonicalize_eq {ts : Row} (h : ∀ t ∈ ts, t.exponent ≤ maxExponent) {p : SparsePoly}
    (hv : ts.value = p.value) : canonicalize ts = p.row := by
  obtain ⟨q, hq⟩ := (canonical_canonicalize h).exists_row
  have hqp : q = p := by
    apply SparsePoly.value_injective
    rw [← SparsePoly.value_row, hq, value_canonicalize, hv]
  rw [← hq, hqp]

theorem canonicalize_ofTerms (ts : List Term) :
    canonicalize (ofTerms ts) = (SparsePoly.ofTerms ts).row := by
  apply canonicalize_eq
  · intro t ht
    obtain ⟨u, -, rfl⟩ := List.mem_map.mp ht
    exact u.exponent_le
  · rw [value_ofTerms, SparsePoly.value_ofTerms]

theorem canonicalize_map {α : Type} {f : α → Term} {g : α → Entry}
    (h : ∀ a, Entry.ofTerm (f a) = g a) (as : List α) :
    canonicalize (as.map g) = (SparsePoly.ofTerms (as.map f)).row := by
  rw [← canonicalize_ofTerms, ofTerms, List.map_map]
  exact congrArg _ (List.map_congr_left fun a _ => (h a).symm)

theorem canonicalize_ofTerm (t : Term) : canonicalize [.ofTerm t] = (SparsePoly.ofTerm t).row := by
  have hone : SparsePoly.ofTerms [t] = SparsePoly.ofTerm t := by
    apply SparsePoly.value_injective
    rw [SparsePoly.value_ofTerms, SparsePoly.value_ofTerm, valueOf_cons, valueOf_nil, add_zero]
  rw [← hone, ← canonicalize_ofTerms]
  rfl

end DecimalPoly.Plain.Row
