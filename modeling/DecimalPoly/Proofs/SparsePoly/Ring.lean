import DecimalPoly.Proofs.Journal
import DecimalPoly.Proofs.Plain.Operations

/-! Polynomials are a commutative group under addition and, as far as products exist, a commutative
ring. The leading exponents decide which products exist, and they add up in a product unless a
factor is zero. Zero makes every product exist that it is part of, so only with other factors do both
bracketings of three exist together. -/
namespace DecimalPoly.SparsePoly
open Polynomial

instance : AddCommGroup SparsePoly where
  add_assoc _ _ _ := value_injective (by simp only [value_add, add_assoc])
  zero_add _ := value_injective (by simp)
  add_zero _ := value_injective (by simp)
  neg_add_cancel _ := value_injective (by simp)
  add_comm _ _ := value_injective (by simp only [value_add, add_comm])
  sub_eq_add_neg _ _ := rfl
  nsmul := nsmulRec
  zsmul := zsmulRec

theorem leadingExponent_add_le_max (p q : SparsePoly) :
    (p + q).leadingExponent ≤ max p.leadingExponent q.leadingExponent := by
  simp only [← natDegree_value, value_add]
  exact natDegree_add_le _ _

section Products
variable {p q r m n : SparsePoly}

theorem mul?_comm : p.mul? q = .ok m ↔ q.mul? p = .ok m := by
  rw [mul?_eq_ok_iff, mul?_eq_ok_iff, Nat.add_comm, mul_comm]

theorem mul?_one (p : SparsePoly) : p.mul? 1 = .ok p := by
  rw [mul?_eq_ok_iff, value_one, mul_one]
  exact ⟨p.leadingExponent_le, rfl⟩

theorem mul?_zero (p : SparsePoly) : p.mul? 0 = .ok 0 := by
  rw [mul?_eq_ok_iff, value_zero, mul_zero]
  exact ⟨leadingExponent_add_le (.inr rfl), rfl⟩

theorem add_mul? (hm : p.mul? r = .ok m) (hn : q.mul? r = .ok n) :
    (p + q).mul? r = .ok (m + n) := by
  rw [mul?_eq_ok_iff] at hm hn ⊢
  obtain ⟨hp, hm⟩ := hm
  obtain ⟨hq, hn⟩ := hn
  -- cancellation can only lower the leading exponent
  have := leadingExponent_add_le_max p q
  refine ⟨by omega, ?_⟩
  rw [value_add, value_add, hm, hn, add_mul]

theorem mul?_bind_eq_ok_iff (hp : p ≠ 0) (hq : q ≠ 0) :
    (p.mul? q >>= fun pq => pq.mul? r) = .ok m ↔
      p.leadingExponent + q.leadingExponent + r.leadingExponent ≤ maxExponent ∧
        m.value = p.value * q.value * r.value := by
  rw [bind_eq_ok]
  constructor
  · rintro ⟨pq, hpq, hm⟩
    rwa [mul?_eq_ok_iff, leadingExponent_of_mul? hp hq hpq, value_of_mul? hpq] at hm
  · rintro ⟨hfit, hval⟩
    obtain ⟨pq, hpq, hpqval⟩ := mul?_eq_ok (p := p) (q := q) (by omega)
    refine ⟨pq, hpq, ?_⟩
    rw [mul?_eq_ok_iff, leadingExponent_of_mul? hp hq hpq, hpqval]
    exact ⟨hfit, hval⟩

theorem bind_mul?_comm : (q.mul? r >>= fun qr => p.mul? qr) = .ok m ↔
    (q.mul? r >>= fun qr => qr.mul? p) = .ok m := by
  simp only [bind_eq_ok, mul?_comm (p := p)]

/-- Both bracketings ask for the same sum of exponents. -/
theorem mul?_assoc (hp : p ≠ 0) (hq : q ≠ 0) (hr : r ≠ 0) :
    (p.mul? q >>= fun pq => pq.mul? r) = .ok m ↔ (q.mul? r >>= fun qr => p.mul? qr) = .ok m := by
  rw [bind_mul?_comm, mul?_bind_eq_ok_iff hp hq, mul?_bind_eq_ok_iff hq hr,
    show q.leadingExponent + r.leadingExponent + p.leadingExponent =
      p.leadingExponent + q.leadingExponent + r.leadingExponent by omega,
    show q.value * r.value * p.value = p.value * q.value * r.value by ring]

theorem eq_of_mul?_mul? (hm : (p.mul? q >>= fun pq => pq.mul? r) = .ok m)
    (hn : (q.mul? r >>= fun qr => p.mul? qr) = .ok n) : m = n := by
  obtain ⟨pq, hpq, hm⟩ := bind_eq_ok.mp hm
  obtain ⟨qr, hqr, hn⟩ := bind_eq_ok.mp hn
  apply value_injective
  rw [value_of_mul? hm, value_of_mul? hpq, value_of_mul? hn, value_of_mul? hqr, mul_assoc]

end Products

theorem row_injective {p q : SparsePoly} (h : p.row = q.row) : p = q :=
  value_injective (by rw [← value_row, h, value_row])

/-- The laws of a commutative ring, with the existence of each product. Equal means the same terms
with the same digits, and the rows of terms that are shown satisfy the same laws. -/
theorem ring_laws (a b c : SparsePoly) :
    a + b = b + a ∧ a + b + c = a + (b + c) ∧ a + 0 = a ∧ 0 + a = a ∧ a + -a = 0 ∧ a - a = 0 ∧
    (∀ m, a.mul? b = .ok m ↔ b.mul? a = .ok m) ∧
    a.mul? 1 = .ok a ∧ mul? 1 a = .ok a ∧ a.mul? 0 = .ok 0 ∧ mul? 0 a = .ok 0 ∧
    (∀ m n, a.mul? c = .ok m → b.mul? c = .ok n → (a + b).mul? c = .ok (m + n)) ∧
    (a ≠ 0 → b ≠ 0 → c ≠ 0 → ∀ m, (a.mul? b >>= fun ab => ab.mul? c) = .ok m ↔
      (b.mul? c >>= fun bc => a.mul? bc) = .ok m) ∧
    (∀ m n, (a.mul? b >>= fun ab => ab.mul? c) = .ok m →
      (b.mul? c >>= fun bc => a.mul? bc) = .ok n → m = n) ∧
    (a.row = b.row ↔ a = b) ∧ (a + b).row = a.row.add b.row ∧ (-a).row = a.row.neg ∧
    (a - b).row = a.row.sub b.row ∧ a.row.mul? b.row = (a.mul? b).map row :=
  ⟨add_comm a b, add_assoc a b c, add_zero a, zero_add a, add_neg_cancel a, sub_self a,
    fun _ => mul?_comm, mul?_one a, mul?_comm.mp (mul?_one a), mul?_zero a,
    mul?_comm.mp (mul?_zero a), fun _ _ => add_mul?, fun ha hb hc _ => mul?_assoc ha hb hc,
    fun _ _ => eq_of_mul?_mul?, ⟨row_injective, congrArg row⟩, row_add a b, row_neg a, row_sub a b,
    row_mul? a b⟩

theorem ring_laws_at_limit :
    let a : SparsePoly := ofTerms [⟨.ofInt 2, 2, by decide⟩, ⟨1, 0, by decide⟩]
    let b : SparsePoly := ofTerms [⟨.ofInt (-2), 2, by decide⟩, ⟨.ofInt 3, 0, by decide⟩]
    let c : SparsePoly := ofTerm ⟨1, 4294967291, by decide⟩
    let m : SparsePoly := ofTerms [⟨.ofInt (-4), 4294967295, by decide⟩,
      ⟨.ofInt 4, 4294967293, by decide⟩, ⟨.ofInt 3, 4294967291, by decide⟩]
    a ≠ 0 ∧ b ≠ 0 ∧ c ≠ 0 ∧ (a + b).mul? c = .ok (c.scalarMul (.ofInt 4)) ∧
      (a.mul? b >>= fun ab => ab.mul? c) = .ok m ∧ (b.mul? c >>= fun bc => a.mul? bc) = .ok m ∧
      ∀ n, (b.mul? c >>= fun bc => a.mul? bc) = .ok n → m = n := by
  intro a b c m
  have ha : a ≠ 0 := by decide +kernel
  have hb : b ≠ 0 := by decide +kernel
  have hc : c ≠ 0 := by decide
  let ac : SparsePoly := ofTerms [⟨.ofInt 2, 4294967293, by decide⟩, ⟨1, 4294967291, by decide⟩]
  let bc : SparsePoly := ofTerms [⟨.ofInt (-2), 4294967293, by decide⟩,
    ⟨.ofInt 3, 4294967291, by decide⟩]
  have hac : a.mul? c = .ok ac := by decide +kernel
  have hbc : b.mul? c = .ok bc := by decide +kernel
  have hsum : ac + bc = c.scalarMul (.ofInt 4) := by decide +kernel
  have hm : (a.mul? b >>= fun ab => ab.mul? c) = .ok m := by decide +kernel
  obtain ⟨-, -, -, -, -, -, -, -, -, -, -, hdistrib, hassoc, hunique, -⟩ := ring_laws a b c
  exact ⟨ha, hb, hc, hsum ▸ hdistrib ac bc hac hbc, hm, (hassoc ha hb hc m).mp hm,
    fun n hn => hunique m n hm hn⟩

end DecimalPoly.SparsePoly
