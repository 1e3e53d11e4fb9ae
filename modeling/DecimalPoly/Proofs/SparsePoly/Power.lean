import DecimalPoly.Proofs.Journal
import DecimalPoly.Proofs.SparsePoly.Folds
import Mathlib.Data.Nat.Bitwise

/-! Powers by repeated squaring. After the bits of the exponent below some place, the accumulator is
the power to the number that these bits make and the square is the power to the place's own number,
so their leading exponents are known. A square that is taken is one that the power needs, and nothing
overflows unless the power does. -/
namespace DecimalPoly.SparsePoly
open Polynomial

/-- What repeated squaring of a polynomial of degree `d` cannot do at bit `k` of `n`, with the
exponents of the factors: multiply the accumulator or, if it can do that, take the next square. -/
inductive OverflowAt (d n k : Nat) : Nat → Nat → Prop
  | product (hbit : n.testBit k = true) (h : maxExponent < d * (n % 2 ^ k) + d * 2 ^ k) :
      OverflowAt d n k (d * (n % 2 ^ k)) (d * 2 ^ k)
  | square (hfits : n.testBit k = true → d * (n % 2 ^ k) + d * 2 ^ k ≤ maxExponent)
      (hmore : 2 ^ (k + 1) ≤ n) (h : maxExponent < d * 2 ^ (k + 1)) :
      OverflowAt d n k (d * 2 ^ k) (d * 2 ^ k)

structure FirstOverflow (d n k left right : Nat) : Prop where
  here : OverflowAt d n k left right
  earliest : ∀ j < k, ∀ l r, ¬OverflowAt d n j l r

section Bits
variable {d n k l r : Nat}

theorem testBit_iff : n.testBit k = true ↔ n / 2 ^ k % 2 = 1 := by
  rw [Nat.testBit_eq_decide_div_mod_eq, decide_eq_true_eq]

theorem mod_two_pow_succ_of_testBit (h : n.testBit k = true) :
    n % 2 ^ (k + 1) = n % 2 ^ k + 2 ^ k := by
  rw [Nat.mod_pow_succ, testBit_iff.mp h, Nat.mul_one]

theorem two_pow_le_of_testBit (h : n.testBit k = true) : 2 ^ k ≤ n := by
  have := Nat.mod_le n (2 ^ (k + 1))
  rw [mod_two_pow_succ_of_testBit h] at this
  omega

theorem OverflowAt.two_pow_le (h : OverflowAt d n k l r) : 2 ^ k ≤ n := by
  cases h with
  | product hbit h => exact two_pow_le_of_testBit hbit
  | square hfits hmore h => exact (Nat.pow_le_pow_right (by decide) (Nat.le_succ k)).trans hmore

theorem OverflowAt.lt_mul (h : OverflowAt d n k l r) : maxExponent < d * n := by
  cases h with
  | product hbit h =>
    have hle := Nat.mod_le n (2 ^ (k + 1))
    rw [mod_two_pow_succ_of_testBit hbit] at hle
    rw [← Nat.mul_add] at h
    exact h.trans_le (Nat.mul_le_mul_left d hle)
  | square hfits hmore h => exact h.trans_le (Nat.mul_le_mul_left d hmore)

theorem exists_overflowAt (h : maxExponent < d * n) : ∃ k l r, OverflowAt d n k l r := by
  have hn : n ≠ 0 := by
    rintro rfl
    exact Nat.not_lt_zero _ h
  -- at the highest bit at the latest the power cannot be finished
  have htop : n.testBit n.log2 = true := Nat.testBit_log2 hn
  have hall := mod_two_pow_succ_of_testBit htop
  rw [Nat.mod_eq_of_lt Nat.lt_log2_self] at hall
  refine ⟨n.log2, _, _, .product htop ?_⟩
  rwa [← Nat.mul_add, ← hall]

theorem exists_firstOverflow_iff : (∃ k l r, FirstOverflow d n k l r) ↔ maxExponent < d * n := by
  classical
  constructor
  · rintro ⟨k, l, r, h⟩
    exact h.here.lt_mul
  · intro h
    have hex := exists_overflowAt h
    obtain ⟨l, r, hlr⟩ := Nat.find_spec hex
    refine ⟨Nat.find hex, l, r, hlr, fun j hj l' r' hj' => ?_⟩
    exact Nat.find_min hex hj ⟨l', r', hj'⟩

end Bits

/-- Repeated squaring of `p` after the bits of `n` below `k`. Beyond the last bit the square is not
needed. -/
structure Stage (p : SparsePoly) (n k : Nat) (acc square : SparsePoly) : Prop where
  acc : acc.value = p.value ^ (n % 2 ^ k)
  square : 2 ^ k ≤ n → square.value = p.value ^ 2 ^ k

theorem leadingExponent_of_value_pow {p q : SparsePoly} {i : Nat} (h : q.value = p.value ^ i) :
    q.leadingExponent = p.leadingExponent * i := by
  rw [← natDegree_value, h, natDegree_pow, natDegree_value, Nat.mul_comm]

section Run
variable {p acc square : SparsePoly} {n k l r : Nat}

theorem Stage.start (p : SparsePoly) (n : Nat) : Stage p n 0 1 p where
  acc := by rw [value_one, pow_zero, Nat.mod_one, pow_zero]
  square _ := by rw [pow_zero, pow_one]

theorem Stage.multiply (h : Stage p n k acc square) (hk : 2 ^ k ≤ n)
    (hfits : n.testBit k = true →
      p.leadingExponent * (n % 2 ^ k) + p.leadingExponent * 2 ^ k ≤ maxExponent) :
    ∃ next, (if n / 2 ^ k % 2 = 1 then acc.mul? square else .ok acc) = .ok next ∧
      next.value = p.value ^ (n % 2 ^ (k + 1)) := by
  by_cases hbit : n.testBit k = true
  · have hfit := hfits hbit
    rw [← leadingExponent_of_value_pow h.acc, ← leadingExponent_of_value_pow (h.square hk)] at hfit
    obtain ⟨next, hnext, hval⟩ := mul?_eq_ok hfit
    refine ⟨next, by rw [if_pos (testBit_iff.mp hbit), hnext], ?_⟩
    rw [hval, h.acc, h.square hk, ← pow_add, mod_two_pow_succ_of_testBit hbit]
  · have hzero : n / 2 ^ k % 2 = 0 := Nat.mod_two_ne_one.mp (mt testBit_iff.mpr hbit)
    refine ⟨acc, by rw [if_neg (by omega)], ?_⟩
    rw [h.acc, Nat.mod_pow_succ, hzero, Nat.mul_zero, Nat.add_zero]

theorem powFrom_of_le (hk : 2 ^ k ≤ n) : powFrom acc square (n / 2 ^ k) =
    ((if n / 2 ^ k % 2 = 1 then acc.mul? square else .ok acc) >>= fun next =>
      if n < 2 ^ (k + 1) then .ok next
      else square.mul? square >>= fun twice => powFrom next twice (n / 2 ^ (k + 1))) := by
  have hpos : n / 2 ^ k ≠ 0 := (Nat.div_pos hk (Nat.two_pow_pos k)).ne'
  have hhalf : n / 2 ^ k / 2 = n / 2 ^ (k + 1) := by rw [Nat.div_div_eq_div_mul, pow_succ]
  have hlast : n / 2 ^ (k + 1) = 0 ↔ n < 2 ^ (k + 1) :=
    Nat.div_eq_zero_iff_lt (Nat.two_pow_pos _)
  rw [powFrom, dif_neg hpos]
  simp only [hhalf, hlast]
  by_cases hbit : n / 2 ^ k % 2 = 1
  · simp only [if_pos hbit]
  · simp only [if_neg hbit]

theorem Stage.step (h : Stage p n k acc square) (hk : 2 ^ k ≤ n)
    (hno : ∀ l r, ¬OverflowAt p.leadingExponent n k l r) :
    ∃ acc' square', Stage p n (k + 1) acc' square' ∧
      powFrom acc square (n / 2 ^ k) = powFrom acc' square' (n / 2 ^ (k + 1)) := by
  have hfits : n.testBit k = true →
      p.leadingExponent * (n % 2 ^ k) + p.leadingExponent * 2 ^ k ≤ maxExponent := by
    intro hbit
    by_contra hlt
    exact hno _ _ (.product hbit (Nat.lt_of_not_le hlt))
  obtain ⟨next, hnext, hval⟩ := h.multiply hk hfits
  rw [powFrom_of_le hk, hnext]
  by_cases hlast : n < 2 ^ (k + 1)
  · refine ⟨next, square, ⟨hval, fun hle => absurd hlast hle.not_gt⟩, ?_⟩
    rw [Nat.div_eq_of_lt hlast, powFrom]
    exact if_pos hlast
  · have hmore : 2 ^ (k + 1) ≤ n := Nat.le_of_not_lt hlast
    have hsquare : square.leadingExponent + square.leadingExponent ≤ maxExponent := by
      by_contra hlt
      rw [leadingExponent_of_value_pow (h.square hk)] at hlt
      refine hno _ _ (.square hfits hmore ?_)
      rw [pow_succ, ← Nat.mul_assoc]
      omega
    obtain ⟨twice, htwice, htwiceval⟩ := mul?_eq_ok hsquare
    refine ⟨next, twice, ⟨hval, fun _ => ?_⟩, ?_⟩
    · rw [htwiceval, h.square hk, ← pow_add, ← Nat.two_mul, Nat.pow_succ']
    · change (if n < 2 ^ (k + 1) then _ else _) = _
      rw [if_neg hlast, htwice]
      rfl

theorem Stage.fail (h : Stage p n k acc square) (ho : OverflowAt p.leadingExponent n k l r) :
    powFrom acc square (n / 2 ^ k) = .error (.exponentOverflow l r) := by
  have hk := ho.two_pow_le
  have hacc := leadingExponent_of_value_pow h.acc
  have hsquare := leadingExponent_of_value_pow (h.square hk)
  rw [powFrom_of_le hk]
  cases ho with
  | product hbit ho =>
    rw [← hacc, ← hsquare] at ho ⊢
    rw [if_pos (testBit_iff.mp hbit), mul?_eq_error ho]
    rfl
  | square hfits hmore ho =>
    obtain ⟨next, hnext, -⟩ := h.multiply hk hfits
    have hlt : maxExponent < square.leadingExponent + square.leadingExponent := by
      rw [pow_succ, ← Nat.mul_assoc] at ho
      omega
    rw [hnext]
    change (if n < 2 ^ (k + 1) then _ else _) = _
    rw [if_neg hmore.not_gt, mul?_eq_error hlt, hsquare]
    rfl

theorem Stage.run (h : Stage p n k acc square)
    (hno : ∀ j, k ≤ j → ∀ l r, ¬OverflowAt p.leadingExponent n j l r) :
    ∃ m, powFrom acc square (n / 2 ^ k) = .ok m ∧ m.value = p.value ^ n := by
  induction hleft : n + 1 - 2 ^ k using Nat.strongRecOn generalizing k acc square with
  | ind left ih =>
    by_cases hk : 2 ^ k ≤ n
    · obtain ⟨acc', square', h', hstep⟩ := h.step hk (hno k le_rfl)
      have hgrow : 2 ^ k < 2 ^ (k + 1) := Nat.pow_lt_pow_right (by decide) (Nat.lt_succ_self k)
      rw [hstep]
      exact ih _ (by omega) h' (fun j hj => hno j (Nat.le_of_succ_le hj)) rfl
    · have hlt : n < 2 ^ k := Nat.lt_of_not_le hk
      refine ⟨acc, ?_, by rw [h.acc, Nat.mod_eq_of_lt hlt]⟩
      rw [Nat.div_eq_of_lt hlt, powFrom]
      rfl

theorem Stage.run_fail {j : Nat} (h : Stage p n k acc square)
    (hearlier : ∀ i, k ≤ i → i < k + j → ∀ l r, ¬OverflowAt p.leadingExponent n i l r)
    (ho : OverflowAt p.leadingExponent n (k + j) l r) :
    powFrom acc square (n / 2 ^ k) = .error (.exponentOverflow l r) := by
  induction j generalizing k acc square with
  | zero => exact h.fail ho
  | succ j ih =>
    have hk : 2 ^ k ≤ n :=
      (Nat.pow_le_pow_right (by decide) (Nat.le_add_right k (j + 1))).trans ho.two_pow_le
    obtain ⟨acc', square', h', hstep⟩ := h.step hk (hearlier k le_rfl (by omega))
    rw [hstep]
    refine ih h' (fun i hi hij => hearlier i (by omega) (by omega)) ?_
    rwa [Nat.add_right_comm]

end Run

section Powers
variable {p m : SparsePoly} {n : Nat}

theorem pow?_eq (p : SparsePoly) (n : Nat) : p.pow? n = powFrom 1 p (n / 2 ^ 0) := by
  rw [pow?, pow_zero, Nat.div_one]

theorem pow?_eq_ok (h : p.leadingExponent * n ≤ maxExponent) :
    ∃ m, p.pow? n = .ok m ∧ m.value = p.value ^ n := by
  rw [pow?_eq]
  exact (Stage.start p n).run fun _ _ _ _ ho => ho.lt_mul.not_ge h

theorem pow?_of_firstOverflow {k l r : Nat} (h : FirstOverflow p.leadingExponent n k l r) :
    p.pow? n = .error (.exponentOverflow l r) := by
  rw [pow?_eq]
  refine (Stage.start p n).run_fail (j := k) (fun i _ hi => h.earliest i (by omega)) ?_
  rw [Nat.zero_add]
  exact h.here

theorem pow?_eq_ok_iff : p.pow? n = .ok m ↔
    p.leadingExponent * n ≤ maxExponent ∧ m.value = p.value ^ n := by
  by_cases hfit : p.leadingExponent * n ≤ maxExponent
  · obtain ⟨q, hq, hval⟩ := pow?_eq_ok hfit
    rw [hq, Except.ok.injEq, and_iff_right hfit, ← hval]
    exact ⟨fun h => congrArg value h.symm, fun h => (value_injective h).symm⟩
  · obtain ⟨k, l, r, hfirst⟩ := exists_firstOverflow_iff.mpr (Nat.lt_of_not_le hfit)
    rw [pow?_of_firstOverflow hfirst]
    simp [hfit]

theorem value_of_pow? (h : p.pow? n = .ok m) : m.value = p.value ^ n := (pow?_eq_ok_iff.mp h).2

theorem product?_replicate (h : p.pow? n = .ok m) : product? (List.replicate n p) = .ok m := by
  obtain ⟨hfit, hval⟩ := pow?_eq_ok_iff.mp h
  have hsum : exponentSum (List.replicate n p) = p.leadingExponent * n := by
    rw [exponentSum, List.map_replicate, List.sum_replicate, smul_eq_mul, Nat.mul_comm]
  obtain ⟨q, hq⟩ := exists_product? (hsum.trans_le hfit)
  rw [hq, Except.ok.injEq]
  apply value_injective
  rw [value_of_product? hq, hval, List.map_replicate, List.prod_replicate]

/-- A power exists if its degree is in range, and then it is the product of as many factors; no
square on the way fails unless the power does. If the degree is out of range, the first bit at which
a product or a square overflows gives the exponents that are blamed, and where the power is taken for
granted that is a violation. The rows of terms that are shown have the same powers. -/
theorem power_law (p : SparsePoly) (n : Nat) :
    let d := p.leadingExponent
    ((∃ m, p.pow? n = .ok m) ↔ d * n ≤ maxExponent) ∧
    (∀ m, p.pow? n = .ok m → product? (List.replicate n p) = .ok m) ∧
    p.pow? 0 = .ok 1 ∧
    ((∃ k l r, FirstOverflow d n k l r) ↔ maxExponent < d * n) ∧
    (∀ k l r, FirstOverflow d n k l r → p.pow? n = .error (.exponentOverflow l r)) ∧
    (∀ m, p.pow n = .ok m ↔ p.pow? n = .ok m) ∧
    (∀ v, p.pow n = .error v ↔ ∃ e, p.pow? n = .error e ∧ v = ⟨.power, e⟩) ∧
    p.row.pow? n = (p.pow? n).map row := by
  intro d
  refine ⟨⟨?_, ?_⟩, fun _ => product?_replicate, ?_, exists_firstOverflow_iff,
    fun _ _ _ => pow?_of_firstOverflow, ?_, ?_, row_pow? p n⟩
  · rintro ⟨m, hm⟩
    exact (pow?_eq_ok_iff.mp hm).1
  · intro hfit
    obtain ⟨m, hm, -⟩ := pow?_eq_ok hfit
    exact ⟨m, hm⟩
  · rw [pow?_eq_ok_iff, pow_zero, value_one]
    exact ⟨Nat.zero_le _, rfl⟩
  · intro m
    exact mapError_eq_ok
  · intro v
    rw [pow, Demand.of]
    cases p.pow? n with
    | ok m => simp [Except.mapError]
    | error e => simp [Except.mapError, eq_comm]

/-- The square of a polynomial of half the highest degree exists. Its cube fails in the product with
the square, and the square of that is not taken. -/
theorem power_law_third_power :
    let p : SparsePoly := ofTerms [⟨1, 2147483647, by decide⟩, ⟨.ofInt (-1), 0, by decide⟩]
    (∃ m, p.pow? 2 = .ok m ∧ product? [p, p] = .ok m) ∧
      FirstOverflow 2147483647 3 1 2147483647 4294967294 ∧
      p.pow? 3 = .error (.exponentOverflow 2147483647 4294967294) ∧
      p.pow 3 = .error ⟨.power, .exponentOverflow 2147483647 4294967294⟩ := by
  intro p
  have hd : p.leadingExponent = 2147483647 := by decide +kernel
  have hfirst : FirstOverflow 2147483647 3 1 2147483647 4294967294 := by
    refine ⟨.product (by decide) (by decide), ?_⟩
    intro j hj l r ho
    obtain rfl : j = 0 := by omega
    cases ho with
    | product hbit h => exact absurd h (by decide)
    | square hfits hmore h => exact absurd h (by decide)
  obtain ⟨hexists, hproduct, -⟩ := power_law p 2
  obtain ⟨-, -, -, -, hfail, -, hviolation, -⟩ := power_law p 3
  obtain ⟨m, hm⟩ := hexists.mpr (by rw [hd]; decide)
  have herror : p.pow? 3 = .error (.exponentOverflow 2147483647 4294967294) :=
    hfail 1 _ _ (by rw [hd]; exact hfirst)
  exact ⟨⟨m, hm, hproduct m hm⟩, hfirst, herror, (hviolation _).mpr ⟨_, herror, rfl⟩⟩

end Powers

end DecimalPoly.SparsePoly
