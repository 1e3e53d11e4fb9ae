import DecimalPoly.SparsePoly.Basic
import DecimalPoly.Proofs.Plain.Row
import DecimalPoly.Proofs.SparsePoly.Product
import Mathlib.Algebra.Polynomial.Derivative

/-! Arithmetic on rows. All of it but the change of signs ends with `canonicalize`. On the rows that
show polynomials each operation gives the row of what it gives on polynomials, or fails as it does
there. -/
namespace DecimalPoly.Plain
open Polynomial

def Entry.neg (t : Entry) : Entry := ⟨t.coefficient.neg, t.exponent⟩

def Entry.mul? (t u : Entry) : Except Failure Entry :=
  if t.exponent + u.exponent ≤ maxExponent then
    .ok ⟨t.coefficient.mul u.coefficient, t.exponent + u.exponent⟩
  else .error (.exponentOverflow t.exponent u.exponent)

def Entry.scale (c : Number) (t : Entry) : Entry := ⟨t.coefficient.mul c, t.exponent⟩

def Entry.derivative (t : Entry) : Entry :=
  ⟨t.coefficient.mul (.ofInt t.exponent), t.exponent - 1⟩

namespace Row

def mergeJoin : Row → Row → Row
  | [], s => s
  | r, [] => r
  | t :: r, u :: s =>
    if u.exponent < t.exponent then t :: mergeJoin r (u :: s)
    else if t.exponent < u.exponent then u :: mergeJoin (t :: r) s
    else ⟨t.coefficient.add u.coefficient, t.exponent⟩ :: mergeJoin r s
termination_by r s => r.length + s.length

def add (r s : Row) : Row := canonicalize (mergeJoin r s)

/-- The one operation that canonicalizes nothing. -/
def neg (r : Row) : Row := r.map Entry.neg

def sub (r s : Row) : Row := r.add s.neg

def pairs (r s : Row) : List (Entry × Entry) := r.flatMap fun t => s.map fun u => (t, u)

def mul? (r s : Row) : Except Failure Row := do
  let products ← (pairs r s).mapM fun (t, u) => t.mul? u
  return canonicalize products

def scalarMul (r : Row) (c : Number) : Row := canonicalize (r.map (Entry.scale c))

def derivative (r : Row) : Row :=
  canonicalize ((r.filter fun t => 0 < t.exponent).map Entry.derivative)

def one : Row := canonicalize [⟨.ofInt 1, 0⟩]

/-- `acc * square ^ n`, the square being taken once more only if bits of `n` remain. -/
def powFrom (acc square : Row) (n : Nat) : Except Failure Row :=
  if n = 0 then .ok acc
  else do
    let acc ← if n % 2 = 1 then acc.mul? square else .ok acc
    if n / 2 = 0 then .ok acc
    else powFrom acc (← square.mul? square) (n / 2)
termination_by n

def pow? (r : Row) (n : Nat) : Except Failure Row := powFrom one r n

def sum (rs : List Row) : Row := rs.foldl add zero

def product? (rs : List Row) : Except Failure Row := rs.foldlM mul? one

theorem value_mergeJoin (r s : Row) : value (mergeJoin r s) = value r + value s := by
  fun_induction mergeJoin r s with
  | case1 s => simp
  | case2 r => simp
  | case3 t r u s h ih => rw [value_cons, ih, value_cons t r, add_assoc]
  | case4 t r u s h1 h2 ih =>
    rw [value_cons, ih, value_cons, value_cons]
    ring
  | case5 t r u s h1 h2 ih =>
    have he : u.exponent = t.exponent := by omega
    rw [value_cons, ih, value_cons, value_cons, Number.toRat_add, map_add, he, add_add_add_comm]

theorem forall_mem_mergeJoin {P : Entry → Prop} {r s : Row}
    (hadd : ∀ t u, P t → P u → P ⟨t.coefficient.add u.coefficient, t.exponent⟩)
    (hr : ∀ t ∈ r, P t) (hs : ∀ t ∈ s, P t) : ∀ t ∈ mergeJoin r s, P t := by
  fun_induction mergeJoin r s with
  | case1 s => exact hs
  | case2 r => exact hr
  | case3 t r u s h ih =>
    obtain ⟨ht, hr⟩ := List.forall_mem_cons.mp hr
    exact List.forall_mem_cons.mpr ⟨ht, ih hr hs⟩
  | case4 t r u s h1 h2 ih =>
    obtain ⟨hu, hs⟩ := List.forall_mem_cons.mp hs
    exact List.forall_mem_cons.mpr ⟨hu, ih hr hs⟩
  | case5 t r u s h1 h2 ih =>
    obtain ⟨ht, hr⟩ := List.forall_mem_cons.mp hr
    obtain ⟨hu, hs⟩ := List.forall_mem_cons.mp hs
    exact List.forall_mem_cons.mpr ⟨hadd t u ht hu, ih hr hs⟩

theorem exponent_le_mergeJoin {r s : Row} (hr : ∀ t ∈ r, t.exponent ≤ maxExponent)
    (hs : ∀ t ∈ s, t.exponent ≤ maxExponent) : ∀ t ∈ mergeJoin r s, t.exponent ≤ maxExponent :=
  forall_mem_mergeJoin (fun _ _ ht _ => ht) hr hs

theorem value_scale (c : Number) (r : Row) :
    value (r.map (Entry.scale c)) = value r * C c.toRat := by
  induction r with
  | nil => simp
  | cons t r ih =>
    rw [List.map_cons, value_cons, ih, value_cons, add_mul, monomial_mul_C, Entry.scale,
      Number.toRat_mul]

theorem value_derivative (r : Row) :
    value ((r.filter fun t => 0 < t.exponent).map Entry.derivative) =
      Polynomial.derivative (value r) := by
  induction r with
  | nil => simp
  | cons t r ih =>
    rw [value_cons, derivative_add, derivative_monomial, ← ih]
    by_cases ht : 0 < t.exponent
    · have hn : (Number.ofInt t.exponent).toRat = t.exponent := by simp [Number.toRat, Number.ofInt]
      rw [List.filter_cons_of_pos (by simpa using ht), List.map_cons, value_cons, Entry.derivative,
        Number.toRat_mul, hn]
    · have hz : t.exponent = 0 := by omega
      rw [List.filter_cons_of_neg (by simpa using ht), hz, Nat.cast_zero, mul_zero, map_zero,
        zero_add]

theorem ofTerms_scale (c : Decimal) (ts : List Term) :
    ofTerms (ts.map fun t => { t with coefficient := t.coefficient * c }) =
      (ofTerms ts).map (Entry.scale (.ofDecimal c)) := by
  induction ts with
  | nil => rfl
  | cons t ts ih =>
    rw [List.map_cons, ofTerms_cons, ih, ofTerms_cons, List.map_cons, Entry.scale, Entry.ofTerm,
      Entry.ofTerm, Number.mul_ofDecimal]

theorem ofTerms_derivative (ts : List Term) : ofTerms (ts.filterMap Term.derivative?) =
    ((ofTerms ts).filter fun t => 0 < t.exponent).map Entry.derivative := by
  induction ts with
  | nil => rfl
  | cons t ts ih =>
    by_cases ht : t.exponent = 0
    · have hnone : t.derivative? = none := if_pos ht
      rw [List.filterMap_cons_none hnone, ih, ofTerms_cons,
        List.filter_cons_of_neg (by simp [Entry.ofTerm, ht])]
    · have hsome : t.derivative? = some _ := if_neg ht
      have hpos : 0 < (Entry.ofTerm t).exponent := Nat.pos_of_ne_zero ht
      rw [List.filterMap_cons_some hsome, ofTerms_cons, ih, ofTerms_cons,
        List.filter_cons_of_pos (by simpa using hpos), List.map_cons, Entry.derivative,
        Entry.ofTerm, Entry.ofTerm, ← Number.mul_ofDecimal]
      rfl

theorem mul?_ofTerm (s t : Term) : (Entry.ofTerm s).mul? (.ofTerm t) =
    match s.mul? t with
    | some u => .ok (.ofTerm u)
    | none => .error (.exponentOverflow s.exponent t.exponent) := by
  rw [Entry.mul?, Term.mul?]
  by_cases h : s.exponent + t.exponent ≤ maxExponent
  · simp [h, Entry.ofTerm]
  · simp [h, Entry.ofTerm]

theorem mapM_mul? (ps : List (Term × Term)) :
    ((ps.map (Prod.map Entry.ofTerm Entry.ofTerm)).mapM fun (t, u) => t.mul? u) =
      match ps.find? fun (s, t) => maxExponent < s.exponent + t.exponent with
      | some (s, t) => .error (.exponentOverflow s.exponent t.exponent)
      | none => .ok (ofTerms (ps.filterMap fun (s, t) => s.mul? t)) := by
  induction ps with
  | nil => rfl
  | cons pair ps ih =>
    obtain ⟨s, t⟩ := pair
    rw [List.map_cons, List.mapM_cons, ih]
    simp only [Prod.map_apply, mul?_ofTerm]
    by_cases h : s.exponent + t.exponent ≤ maxExponent
    · have hmul : s.mul? t = some _ := dif_pos h
      rw [List.find?_cons_of_neg (by simpa using h), List.filterMap_cons_some (by exact hmul), hmul]
      cases ps.find? fun (s, t) => maxExponent < s.exponent + t.exponent with
      | none => rfl
      | some pair => rfl
    · have hmul : s.mul? t = none := dif_neg h
      rw [List.find?_cons_of_pos (by simpa using h), hmul]
      rfl

end Row
end DecimalPoly.Plain

namespace DecimalPoly.SparsePoly
open Plain

theorem row_add (p q : SparsePoly) : (p + q).row = p.row.add q.row := by
  symm
  apply Row.canonicalize_eq
  · exact Row.exponent_le_mergeJoin (canonical_row p).exponent_le (canonical_row q).exponent_le
  · rw [Row.value_mergeJoin, value_row, value_row, value_add]

theorem row_neg (p : SparsePoly) : (-p).row = p.row.neg := by
  by_cases h : p = 0
  · subst h
    decide
  · have hneg : -p ≠ 0 := by
      intro hz
      have := value_neg p
      rw [hz, value_zero, eq_comm, neg_eq_zero] at this
      exact h (value_eq_zero.mp this)
    rw [row_of_ne_zero h, row_of_ne_zero hneg]
    change (p.support.map Term.neg).map Entry.ofTerm = (p.support.map Entry.ofTerm).map Entry.neg
    rw [List.map_map, List.map_map]
    rfl

theorem row_sub (p q : SparsePoly) : (p - q).row = p.row.sub q.row := by
  rw [Row.sub, ← row_neg, ← row_add]
  rfl

theorem row_scalarMul (p : SparsePoly) (c : Decimal) :
    (p.scalarMul c).row = p.row.scalarMul (.ofDecimal c) := by
  symm
  apply Row.canonicalize_eq
  · intro t ht
    obtain ⟨u, hu, rfl⟩ := List.mem_map.mp ht
    exact (canonical_row p).exponent_le u hu
  · rw [Row.value_scale, value_row, scalarMul, value_ofTerms, ← Row.value_ofTerms,
      Row.ofTerms_scale, Row.value_scale, Row.value_ofTerms]
    rfl

theorem value_derivative (p : SparsePoly) :
    p.derivative.value = Polynomial.derivative p.value := by
  rw [derivative, value_ofTerms, ← Row.value_ofTerms, Row.ofTerms_derivative, Row.value_derivative,
    Row.value_ofTerms]
  rfl

theorem row_derivative (p : SparsePoly) : p.derivative.row = p.row.derivative := by
  symm
  apply Row.canonicalize_eq
  · intro t ht
    obtain ⟨u, hu, rfl⟩ := List.mem_map.mp ht
    have := (canonical_row p).exponent_le u (List.mem_filter.mp hu).1
    exact (Nat.sub_le ..).trans this
  · rw [Row.value_derivative, value_row, value_derivative]

theorem row_one : (1 : SparsePoly).row = Row.one := by decide

theorem pairs_row (p q : SparsePoly) : Row.pairs p.row q.row =
    (p.terms.flatMap fun s => q.terms.map fun t => (s, t)).map
      (Prod.map Entry.ofTerm Entry.ofTerm) := by
  simp only [Row.pairs, row, Row.ofTerms, List.flatMap_map, List.map_flatMap, List.map_map]
  rfl

/-- Only the pairs of terms of two polynomials other than zero can be blamed. -/
theorem row_mul? (p q : SparsePoly) : p.row.mul? q.row = (p.mul? q).map row := by
  rw [Row.mul?, pairs_row, Row.mapM_mul?]
  by_cases hzero : p = 0 ∨ q = 0
  · -- the term that zero shows makes pairs, but they all fit
    have hfit := leadingExponent_add_le hzero
    have hterms (s : Term) (hs : s ∈ p.terms) (t : Term) (ht : t ∈ q.terms) :
        s.exponent + t.exponent ≤ maxExponent := by
      have := exponent_le_of_mem_terms hs
      have := exponent_le_of_mem_terms ht
      omega
    obtain ⟨m, hm, hval⟩ := mul?_eq_ok hfit
    rw [find?_pairs_eq_none hterms, hm]
    refine congrArg Except.ok ((Row.canonicalize_ofTerms _).trans (congrArg row ?_))
    apply value_injective
    rw [value_ofTerms, value_products hterms, hval, valueOf_terms, valueOf_terms]
  · -- both sides go through the same pairs
    obtain ⟨hp, hq⟩ := not_or.mp hzero
    rw [terms_of_ne_zero hp, terms_of_ne_zero hq]
    simp only [mul?, pairs]
    generalize (p.support.flatMap fun s => q.support.map fun t => (s, t)) = ps
    cases ps.find? fun (s, t) => maxExponent < s.exponent + t.exponent with
    | some pair => rfl
    | none => exact congrArg Except.ok (Row.canonicalize_ofTerms _)

theorem bind_row {ε α β : Type} {x : Except ε α} {view : α → β} {f : α → Except ε SparsePoly}
    {g : β → Except ε Row} (h : ∀ a, g (view a) = (f a).map row) :
    (x.map view >>= g) = (x >>= f).map row := by
  cases x with
  | error e => rfl
  | ok a => exact h a

theorem row_powFrom (acc square : SparsePoly) (n : Nat) :
    Row.powFrom acc.row square.row n = (powFrom acc square n).map row := by
  induction n using Nat.strongRecOn generalizing acc square with
  | ind n ih =>
    rw [Row.powFrom, powFrom]
    by_cases hn : n = 0
    · rw [if_pos hn, dif_pos hn]
      rfl
    rw [if_neg hn, dif_neg hn]
    have hrest (acc : SparsePoly) :
        (if n / 2 = 0 then .ok acc.row
          else square.row.mul? square.row >>= fun s => Row.powFrom acc.row s (n / 2)) =
        (if n / 2 = 0 then .ok acc
          else square.mul? square >>= fun s => powFrom acc s (n / 2)).map row := by
      by_cases hhalf : n / 2 = 0
      · rw [if_pos hhalf, if_pos hhalf]
        rfl
      · rw [if_neg hhalf, if_neg hhalf, row_mul?]
        exact bind_row fun s => ih (n / 2) (Nat.div_lt_self (by omega) (by decide)) acc s
    by_cases hodd : n % 2 = 1
    · simp only [if_pos hodd]
      rw [row_mul?]
      exact bind_row hrest
    · simp only [if_neg hodd]
      exact hrest acc

theorem row_pow? (p : SparsePoly) (n : Nat) : p.row.pow? n = (p.pow? n).map row := by
  rw [Row.pow?, ← row_one, row_powFrom]
  rfl

theorem row_sum (ps : List SparsePoly) : (sum ps).row = Row.sum (ps.map row) := by
  have hfrom (p : SparsePoly) : (ps.foldl (· + ·) p).row = (ps.map row).foldl Row.add p.row := by
    induction ps generalizing p with
    | nil => rfl
    | cons q ps ih => rw [List.foldl_cons, ih, row_add, List.map_cons, List.foldl_cons]
  exact hfrom 0

theorem row_product? (ps : List SparsePoly) :
    Row.product? (ps.map row) = (product? ps).map row := by
  have hfrom (p : SparsePoly) :
      (ps.map row).foldlM Row.mul? p.row = (ps.foldlM mul? p).map row := by
    induction ps generalizing p with
    | nil => rfl
    | cons q ps ih =>
      rw [List.map_cons, List.foldlM_cons, List.foldlM_cons, row_mul?]
      exact bind_row ih
  rw [Row.product?, ← row_one, hfrom]
  rfl

end DecimalPoly.SparsePoly
