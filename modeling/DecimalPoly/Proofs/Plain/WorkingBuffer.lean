import DecimalPoly.Proofs.Plain.Division
import DecimalPoly.Proofs.SparsePoly.NormalForm
import DecimalPoly.Proofs.SparsePoly.Residue
import Mathlib.Algebra.BigOperators.Fin

/-! The dense buffer while a division is under way. Read as a polynomial it is what the quotient terms
pushed so far, times the divisor, leave of the dividend, also where a coefficient was rounded and its
cell kept a residue. So at the end it holds the remainder, which is computed apart from it. -/
namespace DecimalPoly.Plain
open Polynomial

def Buffer.row (buffer : Buffer) : Row :=
  Row.canonicalize (List.ofFn fun e : Fin buffer.size => ⟨buffer[e], e⟩)

theorem Buffer.Holds.row_eq {buffer : Buffer} {top : Nat} {p : SparsePoly}
    (h : buffer.Holds top p.coefficient) (htop : top ≤ maxExponent)
    (hp : p.leadingExponent ≤ top) : buffer.row = p.row := by
  apply Row.canonicalize_eq
  · intro t ht
    obtain ⟨e, rfl⟩ := List.mem_ofFn.mp ht
    have hlt : (e : Nat) < top + 1 := e.2.trans_eq h.size
    exact (Nat.le_of_lt_succ hlt).trans htop
  · have hdegree : p.value.natDegree < buffer.size := by
      rw [SparsePoly.natDegree_value, h.size]
      omega
    have hcell (e : Fin buffer.size) : monomial (e : Nat) (buffer[e]).toRat =
        monomial (e : Nat) (p.value.coeff e) := by
      rw [SparsePoly.coeff_value, ← Number.toRat_ofDecimal, ← h.cell e e.2]
      rfl
    rw [Row.value, List.map_ofFn, List.sum_ofFn, p.value.as_sum_range' _ hdegree,
      ← Fin.sum_univ_eq_sum_range]
    exact Finset.sum_congr rfl fun e _ => hcell e

namespace Elimination
variable {a b : SparsePoly} {precision n k : Nat} {s : Elimination} {d : LongDivision}

/-- The loop of a division after `k` iterations. -/
def after (a b : Row) (precision k : Nat) : Except Halt Elimination := do
  let lead ← b.leading
  let first ← a.leading
  let buffer ← a.expand first.exponent
  iterate b lead precision (first.exponent - lead.exponent + 1) k ⟨buffer, []⟩

theorem follows_after (hb : b ≠ 0) (hle : b.leadingExponent ≤ a.leadingExponent) (precision : Nat)
    (hk : k ≤ a.leadingExponent - b.leadingExponent + 1) :
    ∃ s d, after a.row b.row precision k = .ok s ∧
      Follows a b precision (a.leadingExponent - b.leadingExponent + 1 - k) s d := by
  obtain ⟨buffer, hexpand, hholds⟩ := Buffer.expand_row a
  obtain ⟨s, d, hiterate, hfollows⟩ := follows_iterate hb hle precision hholds hk
  refine ⟨s, d, ?_, hfollows⟩
  exact bind_eq_ok.mpr ⟨_, Row.leading_row b, bind_eq_ok.mpr ⟨_, Row.leading_row a,
    bind_eq_ok.mpr ⟨buffer, hexpand, hiterate⟩⟩⟩

theorem Follows.leadingExponent_le (h : Follows a b precision n s d) :
    d.left.leadingExponent ≤ a.leadingExponent := by
  by_cases hz : d.left = 0
  · rw [hz]
    exact Nat.zero_le _
  · exact h.invariant.exponent_le (SparsePoly.leadingTerm_mem hz)

theorem Follows.row_buffer (h : Follows a b precision n s d) : s.buffer.row = d.left.row :=
  h.holds.row_eq a.leadingExponent_le h.leadingExponent_le

theorem Follows.canonicalize_pushed (h : Follows a b precision n s d) :
    Row.canonicalize s.pushed = (SparsePoly.ofTerms d.found.reverse).row := by
  rw [h.pushed, Row.canonicalize_ofTerms]

theorem Follows.balance (h : Follows a b precision n s d) :
    ∃ m : SparsePoly, (SparsePoly.ofTerms d.found.reverse).mul? b = .ok m ∧ d.left + m = a := by
  obtain ⟨m, hm, hvalue⟩ := SparsePoly.mul?_eq_ok h.invariant.exponents_fit
  refine ⟨m, hm, SparsePoly.value_injective ?_⟩
  rw [SparsePoly.value_add, hvalue, add_comm, h.invariant.value]

end Elimination
end DecimalPoly.Plain

namespace DecimalPoly.SparsePoly
open Plain

/-- After each iteration of the loop the buffer and the product of the divisor and the quotient terms
pushed so far add up to the dividend. After the last one the cells, up to the dividend's degree, hold
the coefficients of the remainder that is the dividend less quotient times divisor. -/
theorem working_buffer_remainder (a : SparsePoly) {b : SparsePoly} (hb : b ≠ 0) (precision : Nat)
    (hle : b.leadingExponent ≤ a.leadingExponent) :
    let count := a.leadingExponent - b.leadingExponent + 1
    (∀ k ≤ count, ∃ s m, Elimination.after a.row b.row precision k = .ok s ∧
      s.buffer.size = a.leadingExponent + 1 ∧
      (Row.canonicalize s.pushed).mul b.row = .ok m ∧ s.buffer.row.add m = a.row) ∧
    ∃ s m, Elimination.after a.row b.row precision count = .ok s ∧
      (Row.canonicalize s.pushed).mul b.row = .ok m ∧
      a.row.divRem b.row precision = .ok (Row.canonicalize s.pushed, a.row.sub m) ∧
      (∃ q r, (divRem a b precision).outcome = .ok (q, r) ∧ q.row = Row.canonicalize s.pushed ∧
        r.row = a.row.sub m) ∧
      ∀ e ≤ a.leadingExponent, s.buffer.read e = .ok ((a.row.sub m).coefficient e) := by
  intro count
  refine ⟨fun k hk => ?_, ?_⟩
  · obtain ⟨s, d, hafter, hfollows⟩ := Elimination.follows_after hb hle precision hk
    obtain ⟨m, hm, hsum⟩ := hfollows.balance
    refine ⟨s, m.row, hafter, hfollows.holds.size, ?_, ?_⟩
    · rw [hfollows.canonicalize_pushed]
      exact Row.mul_row hm
    · rw [hfollows.row_buffer, ← row_add, hsum]
  · obtain ⟨s, d, hafter, hfollows⟩ := Elimination.follows_after hb hle precision le_rfl
    rw [Nat.sub_self] at hfollows
    obtain ⟨q, r, m, hq, hm, -, hr, hout⟩ := outcome_divRem a hb precision
    rw [outcome_quotient hb, Except.ok.injEq, ← hfollows.finish] at hq
    have hleft : d.left = r := by
      rw [hfollows.finish, remainder_eq_left hb hout]
    have hpushed : Row.canonicalize s.pushed = q.row := by rw [hfollows.canonicalize_pushed, hq]
    have hrow : r.row = a.row.sub m.row := by rw [hr, row_sub]
    have hdense := Row.divRem_row a b precision
    rw [hout] at hdense
    refine ⟨s, m.row, hafter, ?_, ?_, ⟨q, r, hout, hpushed.symm, hrow⟩, fun e he => ?_⟩
    · rw [hpushed]
      exact Row.mul_row hm
    · rw [hpushed, ← hrow]
      exact hdense
    · rw [← hrow, coefficient_row, ← hleft]
      exact hfollows.holds.read he

/-- The first of two iterations rounds a third and leaves a residue in two cells. The second one meets a
cell of zero between them. -/
theorem working_buffer_remainder_residue :
    let a := ofTerms [⟨1, 3, by decide⟩, ⟨1, 1, by decide⟩]
    let b := ofTerms [⟨.ofInt 3, 2, by decide⟩, ⟨.ofInt 3, 0, by decide⟩]
    let s : Elimination := ⟨#[.zero, ⟨1, 2⟩, .zero, ⟨1, 2⟩], [⟨⟨33, 2⟩, 1⟩]⟩
    b ≠ 0 ∧ b.leadingExponent ≤ a.leadingExponent ∧
      Elimination.after a.row b.row 2 1 = .ok s ∧ Elimination.after a.row b.row 2 2 = .ok s ∧
      (∃ m, (Row.canonicalize s.pushed).mul b.row = .ok m ∧ s.buffer.row.add m = a.row) ∧
      ∃ q r, (divRem a b 2).outcome = .ok (q, r) ∧ q.row = [⟨⟨33, 2⟩, 1⟩] ∧
        ∀ e ≤ 3, s.buffer.read e = .ok (r.row.coefficient e) := by
  intro a b s
  have hb : b ≠ 0 := by decide +kernel
  have hle : b.leadingExponent ≤ a.leadingExponent := by decide +kernel
  have hfirst : Elimination.after a.row b.row 2 1 = .ok s := by decide +kernel
  have hsecond : Elimination.after a.row b.row 2 2 = .ok s := by decide +kernel
  have hcount : 2 = a.leadingExponent - b.leadingExponent + 1 := by decide +kernel
  have htop : a.leadingExponent = 3 := by decide +kernel
  have hquotient : Row.canonicalize s.pushed = [⟨⟨33, 2⟩, 1⟩] := by decide +kernel
  obtain ⟨hloop, s', m', hlast, -, -, ⟨q, r, hout, hq, hr⟩, hcells⟩ :=
    working_buffer_remainder a hb 2 hle
  obtain ⟨s₁, m, hs₁, -, hm, hsum⟩ := hloop 1 (by omega)
  rw [hfirst, Except.ok.injEq] at hs₁
  rw [← hcount, hsecond, Except.ok.injEq] at hlast
  subst hs₁ hlast
  rw [← hr, htop] at hcells
  exact ⟨hb, hle, hfirst, hsecond, ⟨m, hm, hsum⟩, q, r, hout, hq.trans hquotient, hcells⟩

end DecimalPoly.SparsePoly
