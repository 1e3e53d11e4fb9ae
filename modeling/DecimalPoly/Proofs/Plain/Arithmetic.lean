import DecimalPoly.Proofs.Decimal.Ring
import DecimalPoly.Proofs.Plain.Number

/-! Arithmetic on bare pairs of a mantissa and a scale. Of a pair in lowest terms the sign can be
changed and dropped without a look at the digits, and a power is stripped of zeros once, at its end.
All results are in lowest terms and have the exact value, so the pairs in lowest terms are a
commutative ring with equality of mantissas and scales. -/
namespace DecimalPoly.Plain.Number

def abs (x : Number) : Number := ⟨x.mantissa.natAbs, x.scale⟩

def pow (x : Number) (n : Nat) : Number := normal (x.mantissa.pow n) (x.scale * n)

@[simp] theorem abs_ofDecimal (a : Decimal) : (ofDecimal a).abs = ofDecimal a.abs := rfl

@[simp] theorem pow_ofDecimal (a : Decimal) (n : Nat) :
    (ofDecimal a).pow n = ofDecimal (a.pow n) := normal_eq ..

/-- The pair in lowest terms for a rational number. -/
structure Denotes (x : Number) (v : ℚ) : Prop where
  lowest : x.Lowest
  value : x.toRat = v

theorem denotes_ofDecimal {d : Decimal} {v : ℚ} (h : d.toRat = v) : (ofDecimal d).Denotes v :=
  ⟨lowest_ofDecimal d, h⟩

theorem Lowest.exists_decimal {x : Number} (h : x.Lowest) : ∃ d : Decimal, ofDecimal d = x :=
  ⟨⟨x.mantissa, x.scale, h⟩, rfl⟩

theorem Denotes.unique {x y : Number} {v : ℚ} (hx : x.Denotes v) (hy : y.Denotes v) : x = y := by
  obtain ⟨a, rfl⟩ := hx.lowest.exists_decimal
  obtain ⟨b, rfl⟩ := hy.lowest.exists_decimal
  have hab : a.toRat = b.toRat := hx.value.trans hy.value.symm
  rw [Decimal.toRat_injective hab]

theorem toRat_eq_iff {x y : Number} (hx : x.Lowest) (hy : y.Lowest) :
    x.toRat = y.toRat ↔ x.mantissa = y.mantissa ∧ x.scale = y.scale := by
  constructor
  · intro h
    have hxy : x = y := Denotes.unique ⟨hx, h⟩ ⟨hy, rfl⟩
    rw [hxy]
    exact ⟨rfl, rfl⟩
  · rintro ⟨hm, hs⟩
    rw [toRat, toRat, hm, hs]

/-- Decimal arithmetic is exact and stays in lowest terms. It is a commutative ring in which equal
numbers are equal digit by digit, and sums and products of a list are those of the ring, in whatever order
the list is. -/
theorem arithmetic_exact :
    (∀ (x y : Number) (n : Nat), x.Lowest → y.Lowest →
      (x.add y).Denotes (x.toRat + y.toRat) ∧ (x.sub y).Denotes (x.toRat - y.toRat) ∧
      (x.mul y).Denotes (x.toRat * y.toRat) ∧ x.neg.Denotes (-x.toRat) ∧
      x.abs.Denotes |x.toRat| ∧ (x.pow n).Denotes (x.toRat ^ n) ∧
      (x.toRat = y.toRat ↔ x.mantissa = y.mantissa ∧ x.scale = y.scale)) ∧
    (∀ (a b : Decimal) (n : Nat),
      ofDecimal (a + b) = (ofDecimal a).add (ofDecimal b) ∧
      ofDecimal (a - b) = (ofDecimal a).sub (ofDecimal b) ∧
      ofDecimal (a * b) = (ofDecimal a).mul (ofDecimal b) ∧
      ofDecimal (-a) = (ofDecimal a).neg ∧ ofDecimal a.abs = (ofDecimal a).abs ∧
      ofDecimal (a.pow n) = (ofDecimal a).pow n) ∧
    (∃ ring : CommRing Decimal, ring.add = Decimal.add ∧ ring.sub = Decimal.sub ∧
      ring.mul = Decimal.mul ∧ ring.neg = Decimal.neg ∧ ring.zero = Decimal.ofInt 0 ∧
      ring.one = Decimal.ofInt 1) ∧
    (∀ ds : List Decimal, Decimal.sum ds = ds.sum ∧ Decimal.product ds = ds.prod) ∧
    ∀ as bs : List Decimal, as.Perm bs →
      Decimal.sum as = Decimal.sum bs ∧ Decimal.product as = Decimal.product bs := by
  refine ⟨fun x y n hx hy => ?_, fun a b n => ?_, ⟨inferInstance, ?_⟩,
    fun ds => ⟨Decimal.sum_eq ds, Decimal.product_eq ds⟩, fun as bs h => ?_⟩
  · have heq := toRat_eq_iff hx hy
    obtain ⟨a, rfl⟩ := hx.exists_decimal
    obtain ⟨b, rfl⟩ := hy.exists_decimal
    simp only [add_ofDecimal, sub_ofDecimal, mul_ofDecimal, neg_ofDecimal, abs_ofDecimal,
      pow_ofDecimal]
    exact ⟨denotes_ofDecimal (Decimal.toRat_add a b), denotes_ofDecimal (Decimal.toRat_sub a b),
      denotes_ofDecimal (Decimal.toRat_mul a b), denotes_ofDecimal (Decimal.toRat_neg a),
      denotes_ofDecimal (Decimal.toRat_abs a), denotes_ofDecimal (Decimal.toRat_pow a n), heq⟩
  · simp
  · exact ⟨rfl, rfl, rfl, rfl, rfl, rfl⟩
  · exact ⟨Decimal.sum_perm h, Decimal.product_perm h⟩

theorem arithmetic_exact_quarters :
    let x : Number := ⟨25, 1⟩
    let y : Number := ⟨-75, 2⟩
    let a := Decimal.ofScaled 25 1
    let b := Decimal.ofScaled (-75) 2
    x.Lowest ∧ y.Lowest ∧ x.add y = ⟨175, 2⟩ ∧ x.mul y = ⟨-1875, 3⟩ ∧ y.pow 2 = ⟨5625, 4⟩ ∧
      (x.add y).Denotes (x.toRat + y.toRat) ∧ (x.mul y).Denotes (x.toRat * y.toRat) ∧
      (x.pow 2).Denotes (x.toRat ^ 2) ∧ x.neg.Denotes (-x.toRat) ∧
      [a, b].Perm [b, a] ∧ Decimal.sum [a, b] = Decimal.sum [b, a] := by
  intro x y a b
  have hx : x.Lowest := by decide
  have hy : y.Lowest := by decide
  have hperm : [a, b].Perm [b, a] := List.Perm.swap b a []
  obtain ⟨hadd, -, hmul, hneg, -, hpow, -⟩ := arithmetic_exact.1 x y 2 hx hy
  exact ⟨hx, hy, by decide, by decide, by decide, hadd, hmul, hpow, hneg, hperm,
    (arithmetic_exact.2.2.2.2 [a, b] [b, a] hperm).1⟩

end DecimalPoly.Plain.Number
