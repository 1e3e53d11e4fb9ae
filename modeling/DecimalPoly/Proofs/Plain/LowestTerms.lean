import DecimalPoly.Proofs.Plain.Arithmetic

/-! The pairs that stand for one number. There is one in lowest terms among them, and the others are that
one with zeros put at the end of the mantissa, so it has the least scale. The loop that normalizes a pair
takes these zeros off one by one, with division and remainder cut off toward zero. It ends because each
zero costs a place. -/
namespace DecimalPoly.Plain.Number

def pad (x : Number) (k : Nat) : Number := ⟨x.mantissa * tenPow k, x.scale + k⟩

def strip? (x : Number) : Option Number :=
  if 0 < x.scale ∧ x.mantissa.tmod 10 = 0 then some ⟨x.mantissa.tdiv 10, x.scale - 1⟩ else none

/-- The loop ends at `y` after `n` iterations from `x`. -/
inductive StripsTo : Nat → Number → Number → Prop
  | stop {x : Number} (h : x.strip? = none) : StripsTo 0 x x
  | strip {n : Nat} {x y z : Number} (h : x.strip? = some y) (rest : StripsTo n y z) :
    StripsTo (n + 1) x z

/-- Normalization with `n` iterations. A zero gives up all its places without the loop. -/
def NormalizesTo (n : Nat) (x y : Number) : Prop :=
  if x.isZero then n = 0 ∧ y = ⟨x.mantissa, 0⟩ else StripsTo n x y

theorem pad_zero (x : Number) : x.pad 0 = x := by
  rw [pad, show tenPow 0 = 1 from rfl, Nat.cast_one, mul_one, Nat.add_zero]

theorem pad_one (x : Number) : x.pad 1 = ⟨x.mantissa * 10, x.scale + 1⟩ := rfl

theorem pad_succ (x : Number) (k : Nat) : x.pad (k + 1) = (x.pad k).pad 1 := by
  rw [pad_one, pad, pad, tenPow_succ, Nat.cast_mul, Nat.cast_ofNat, ← mul_assoc, add_assoc]

@[simp] theorem toRat_pad (x : Number) (k : Nat) : (x.pad k).toRat = x.toRat := by
  rw [pad, toRat, Int.cast_mul, Int.cast_natCast, tenPow_cast, pow_add,
    mul_div_mul_right _ _ (by positivity), toRat]

theorem strip?_eq_some {x y : Number} : x.strip? = some y ↔ x = y.pad 1 := by
  rw [pad_one]
  constructor
  · intro h
    rw [strip?, Option.ite_none_right_eq_some, Option.some.injEq] at h
    obtain ⟨⟨hscale, hzero⟩, rfl⟩ := h
    rw [Int.tdiv_mul_cancel (Int.dvd_of_tmod_eq_zero hzero), Nat.sub_add_cancel hscale]
  · rintro rfl
    have hloop : 0 < y.scale + 1 ∧ (y.mantissa * 10).tmod 10 = 0 :=
      ⟨Nat.succ_pos _, Int.mul_tmod_left ..⟩
    rw [strip?, if_pos hloop, Int.mul_tdiv_cancel _ (by decide), Nat.add_sub_cancel]

theorem strip?_eq_none {x : Number} : x.strip? = none ↔ x.Lowest := by
  have hzero : x.mantissa.tmod 10 = 0 ↔ x.mantissa % 10 = 0 := by
    rw [← Int.dvd_iff_tmod_eq_zero, Int.dvd_iff_emod_eq_zero]
  rw [strip?, Lowest, ite_eq_right_iff, hzero]
  simp only [reduceCtorEq, imp_false]
  omega

theorem stripsTo_iff {n : Nat} {x y : Number} : StripsTo n x y ↔ x = y.pad n ∧ y.Lowest := by
  constructor
  · intro h
    induction h with
    | stop h => exact ⟨(pad_zero _).symm, strip?_eq_none.mp h⟩
    | strip h rest ih =>
      obtain ⟨rfl, hlowest⟩ := ih
      exact ⟨(strip?_eq_some.mp h).trans (pad_succ ..).symm, hlowest⟩
  · rintro ⟨rfl, hlowest⟩
    induction n with
    | zero =>
      rw [pad_zero]
      exact .stop (strip?_eq_none.mpr hlowest)
    | succ n ih => exact .strip (strip?_eq_some.mpr (pad_succ y n)) ih

theorem exists_stripsTo (x : Number) : ∃ n y, StripsTo n x y := by
  -- the scale is what the loop runs down
  induction hs : x.scale generalizing x with
  | zero => exact ⟨0, x, .stop (strip?_eq_none.mpr (.inl hs))⟩
  | succ s ih =>
    cases hx : x.strip? with
    | none => exact ⟨0, x, .stop hx⟩
    | some y =>
      have hy : x.scale = y.scale + 1 := congrArg scale (strip?_eq_some.mp hx)
      obtain ⟨n, z, hrest⟩ := ih y (by omega)
      exact ⟨n + 1, z, .strip hx hrest⟩

theorem denotes_normal (m : Int) (s : Nat) : (normal m s).Denotes (m / 10 ^ s) :=
  ⟨lowest_normal m s, toRat_normal m s⟩

theorem Denotes.toRat_eq_iff_pad {x y : Number} {v : ℚ} (hx : x.Denotes v) :
    y.toRat = v ↔ ∃ k, y = x.pad k := by
  constructor
  · intro hy
    obtain ⟨k, z, hz⟩ := exists_stripsTo y
    obtain ⟨hpad, hlowest⟩ := stripsTo_iff.mp hz
    have hvalue : z.toRat = v := by rw [← toRat_pad z k, ← hpad, hy]
    exact ⟨k, by rw [hpad, hx.unique ⟨hlowest, hvalue⟩]⟩
  · rintro ⟨k, rfl⟩
    rw [toRat_pad, hx.value]

theorem Denotes.scale_le {x y : Number} {v : ℚ} (hx : x.Denotes v) (hy : y.toRat = v) :
    x.scale ≤ y.scale := by
  obtain ⟨k, rfl⟩ := hx.toRat_eq_iff_pad.mp hy
  exact Nat.le_add_right ..

theorem Lowest.scale_of_zero {x : Number} (h : x.Lowest) (hm : x.mantissa = 0) : x.scale = 0 := by
  rw [Lowest, hm] at h
  exact h.resolve_right (· rfl)

theorem normal_eq_self {x : Number} : normal x.mantissa x.scale = x ↔ x.Lowest := by
  constructor
  · intro h
    rw [← h]
    exact lowest_normal ..
  · intro h
    exact (denotes_normal ..).unique ⟨h, rfl⟩

theorem normalizesTo_iff {n : Nat} {x y : Number} : NormalizesTo n x y ↔
    n = (if x.mantissa = 0 then 0 else x.scale - y.scale) ∧ y = normal x.mantissa x.scale := by
  have hnormal := denotes_normal x.mantissa x.scale
  by_cases hm : x.mantissa = 0
  · have hzero : normal x.mantissa x.scale = ⟨x.mantissa, 0⟩ := by
      rw [normal, if_pos hm, hm]
      rfl
    rw [NormalizesTo, if_pos (isZero_iff.mpr hm), if_pos hm, hzero]
  rw [NormalizesTo, if_neg (mt isZero_iff.mp hm), if_neg hm, stripsTo_iff]
  constructor
  · rintro ⟨rfl, hlowest⟩
    exact ⟨(Nat.add_sub_cancel_left ..).symm, Denotes.unique ⟨hlowest, (toRat_pad y n).symm⟩ hnormal⟩
  · rintro ⟨hn, rfl⟩
    obtain ⟨k, hk⟩ := hnormal.toRat_eq_iff_pad.mp (rfl : x.toRat = _)
    have hscale : x.scale = (normal x.mantissa x.scale).scale + k := congrArg scale hk
    obtain rfl : n = k := by omega
    exact ⟨hk, hnormal.lowest⟩

/-- Normalization ends for every pair, and it ends at the one pair of its number in lowest terms. No pair
of the number has a smaller scale, and what another one has more are zeros. So two pairs come to the same
just if they agree over a common power of ten, and the pairs in lowest terms are those left as they are. -/
theorem lowest_terms (m : Int) (s : Nat) :
    (∀ k x, NormalizesTo k ⟨m, s⟩ x ↔
      k = (if m = 0 then 0 else s - x.scale) ∧ x = normal m s) ∧
    normal m s = ofDecimal (.ofScaled m s) ∧
    (normal m s).scale ≤ s ∧ (normal m s).toRat = m / 10 ^ s ∧
    ((normal m s).scale = 0 ∨ (normal m s).mantissa % 10 ≠ 0) ∧
    ((normal m s).mantissa = 0 → (normal m s).scale = 0) ∧
    (∀ x : Number, x.toRat = m / 10 ^ s ↔ ∃ k, x = (normal m s).pad k) ∧
    (∀ x : Number, x.toRat = m / 10 ^ s → (normal m s).scale ≤ x.scale) ∧
    (∀ (n : Int) (t : Nat), Decimal.ofScaled m s = .ofScaled n t ↔ m * 10 ^ t = n * 10 ^ s) ∧
    (∀ x : Number, normal x.mantissa x.scale = x ↔ x.Lowest) ∧
    ∀ d : Decimal, .ofScaled d.mantissa d.scale = d := by
  have h : (normal m s).Denotes (m / 10 ^ s) := denotes_normal m s
  exact ⟨fun k x => normalizesTo_iff, normal_eq m s, h.scale_le (y := ⟨m, s⟩) rfl, h.value, h.lowest,
    h.lowest.scale_of_zero, fun x => h.toRat_eq_iff_pad, fun x => h.scale_le,
    fun n t => Decimal.ofScaled_eq_ofScaled, fun x => normal_eq_self, Decimal.ofScaled_self⟩

theorem lowest_terms_two_ends :
    let x : Number := ⟨-120, 2⟩
    NormalizesTo 2 ⟨-1200, 3⟩ ⟨-12, 1⟩ ∧ NormalizesTo 1 ⟨-1200, 1⟩ ⟨-120, 0⟩ ∧
      NormalizesTo 0 ⟨0, 7⟩ zero ∧ (normal 0 7).mantissa = 0 ∧ (normal 0 7).scale = 0 ∧
      x.toRat = (-1200 : Int) / 10 ^ 3 ∧ (normal (-1200) 3).scale ≤ x.scale ∧
      Decimal.ofScaled (-1200) 3 = .ofScaled (-120) 2 := by
  intro x
  have hx : x.toRat = (-1200 : Int) / 10 ^ 3 := by norm_num [x, toRat]
  have hzero : (normal 0 7).mantissa = 0 := by decide
  obtain ⟨hdigit, -, -, -, -, -, -, hleast, hequal, -⟩ := lowest_terms (-1200) 3
  obtain ⟨hplaces, -⟩ := lowest_terms (-1200) 1
  obtain ⟨hnone, -, -, -, -, hscale, -⟩ := lowest_terms 0 7
  exact ⟨(hdigit 2 ⟨-12, 1⟩).mpr (by decide), (hplaces 1 ⟨-120, 0⟩).mpr (by decide),
    (hnone 0 zero).mpr (by decide), hzero, hscale hzero, hx, hleast x hx,
    (hequal (-120) 2).mpr (by norm_num)⟩

end DecimalPoly.Plain.Number
