import DecimalPoly.Proofs.Binary64.RoundTrip
import DecimalPoly.Proofs.Plain.Sources
import DecimalPoly.Proofs.SparsePoly.NormalForm
import DecimalPoly.Proofs.Text.Grammar

/-! From raw terms to coefficients. What counts of a number that is handed in is its value, whatever it
is represented as. A list of raw terms has a polynomial if every number is finite and every exponent is
in range, and a coefficient is the sum of those whose exponents have one value. -/
namespace DecimalPoly

namespace Decimal
variable {d : Decimal} {n : ℕ}

theorem toRat_eq_natCast : d.toRat = n ↔ d = ofInt n := by
  rw [← toRat_inj, toRat_ofInt, Int.cast_natCast]

theorem natural_iff : ¬(d.isNegative = true ∨ ¬d.isInteger = true) ↔ ∃ n : ℕ, d = ofInt n := by
  rw [not_or, not_not, isNegative, isInteger, decide_eq_true_eq, decide_eq_true_eq, not_lt]
  constructor
  · intro h
    obtain ⟨hnonneg, hscale⟩ := h
    exact ⟨d.mantissa.toNat, ext (Int.toNat_of_nonneg hnonneg).symm hscale⟩
  · intro h
    obtain ⟨n, rfl⟩ := h
    exact ⟨Int.natCast_nonneg n, rfl⟩

end Decimal

namespace Scalar

def value? : Scalar → Option ℚ
  | .integer n => some n
  | .double x => x.toDecimal?.map Decimal.toRat
  | .decimal d => some d.toRat

def IsFinite : Scalar → Prop
  | .double x => x.IsFinite
  | _ => True

variable {s : Scalar} {d : Decimal} {v : ℚ}

theorem value?_double {x : Binary64} : (double x).value? = some v ↔ x.Means v := by
  rw [value?, Option.map_eq_some_iff, Binary64.means_iff]

theorem value?_eq_none : s.value? = none ↔ ¬s.IsFinite := by
  cases s with
  | integer n => simp [value?, IsFinite]
  | double x => rw [value?, Option.map_eq_none_iff, IsFinite, Binary64.toDecimal?_eq_none_iff]
  | decimal d => simp [value?, IsFinite]

theorem isFinite_iff : s.IsFinite ↔ ∃ v, s.value? = some v := by
  rw [← Option.isSome_iff_exists, Option.isSome_iff_ne_none, ne_eq, value?_eq_none, not_not]

theorem value?_eq_some : s.value? = some v ↔ ∃ d, s.toDecimal = .ok d ∧ d.toRat = v := by
  cases s with
  | integer n => simp [value?, toDecimal]
  | double x =>
    rw [value?, toDecimal]
    cases x.toDecimal? with
    | none => simp
    | some d => simp
  | decimal d => simp [value?, toDecimal]

theorem toDecimal_eq_ok : s.toDecimal = .ok d ↔ s.value? = some d.toRat := by
  rw [value?_eq_some]
  constructor
  · exact fun h => ⟨d, h, rfl⟩
  · intro h
    obtain ⟨d', hd', heq⟩ := h
    rwa [← Decimal.toRat_injective heq]

theorem not_exists_natural_iff : (¬∃ n : ℕ, s.value? = some (n : ℚ)) ↔
    ¬s.IsFinite ∨ ∃ v, s.value? = some v ∧ (v < 0 ∨ ¬∃ z : ℤ, v = z) := by
  cases hs : s.value? with
  | none => simp [value?_eq_none.mp hs]
  | some v =>
    have hfinite : s.IsFinite := isFinite_iff.mpr ⟨v, hs⟩
    simp only [hfinite, not_true, false_or, Option.some_inj, exists_eq_left']
    rw [← not_iff_not, not_not, not_or, not_not, not_lt]
    constructor
    · intro h
      obtain ⟨n, rfl⟩ := h
      exact ⟨Nat.cast_nonneg n, n, (Int.cast_natCast n).symm⟩
    · intro h
      obtain ⟨hnonneg, z, rfl⟩ := h
      obtain ⟨n, rfl⟩ := Int.eq_ofNat_of_zero_le (Int.cast_nonneg_iff.mp hnonneg)
      exact ⟨n, Int.cast_natCast n⟩

end Scalar

namespace RawTerm
variable {raw : RawTerm} {t : Term} {e : Failure}

/-- A double that is not finite, or an exponent that is no natural number up to the limit. -/
def Faulty (raw : RawTerm) : Prop :=
  ¬raw.coefficient.IsFinite ∨ ¬raw.exponent.IsFinite ∨
    ∃ v, raw.exponent.value? = some v ∧ ¬∃ n : ℕ, n ≤ maxExponent ∧ v = n

theorem toTerm_eq_ok : raw.toTerm = .ok t ↔
    raw.coefficient.value? = some t.coefficient.toRat ∧
      raw.exponent.value? = some (t.exponent : ℚ) := by
  rw [toTerm, mapError_eq_ok]
  simp only [bind_eq_ok, Scalar.toDecimal_eq_ok, Grammar.toExponent_iff]
  constructor
  · intro h
    obtain ⟨c, hc, d, hd, n, hn, ⟨⟩⟩ := h
    exact ⟨hc, hd.trans (congrArg some hn)⟩
  · intro h
    obtain ⟨hc, he⟩ := h
    obtain ⟨d, hd, hvalue⟩ := Scalar.value?_eq_some.mp he
    exact ⟨t.coefficient, hc, d, Scalar.toDecimal_eq_ok.mp hd, ⟨t.exponent, t.exponent_le⟩, hvalue,
      rfl⟩

theorem exists_toTerm_iff : (∃ t, raw.toTerm = .ok t) ↔ ¬raw.Faulty := by
  simp only [Faulty, not_or, not_not, Scalar.isFinite_iff, toTerm_eq_ok]
  constructor
  · intro h
    obtain ⟨t, hc, he⟩ := h
    refine ⟨⟨_, hc⟩, ⟨_, he⟩, fun hout => ?_⟩
    obtain ⟨v, hv, hno⟩ := hout
    obtain rfl := Option.some_inj.mp (he.symm.trans hv)
    exact hno ⟨t.exponent, t.exponent_le, rfl⟩
  · intro h
    obtain ⟨⟨u, hu⟩, ⟨v, hv⟩, hin⟩ := h
    obtain ⟨n, hn, rfl⟩ : ∃ n : ℕ, n ≤ maxExponent ∧ v = n := by
      by_contra hno
      exact hin ⟨v, hv, hno⟩
    obtain ⟨c, -, rfl⟩ := Scalar.value?_eq_some.mp hu
    exact ⟨⟨c, n, hn⟩, hu, hv⟩

theorem toTerm_eq_error : raw.toTerm = .error e ↔
    raw.Faulty ∧ e = .invalidTerm raw.coefficient.text raw.exponent.text := by
  have hone (e : Failure) (he : raw.toTerm = .error e) :
      e = .invalidTerm raw.coefficient.text raw.exponent.text := eq_of_mapError_eq_error he
  rw [eq_error_iff hone, exists_toTerm_iff, not_not]

end RawTerm

namespace SparsePoly
variable {raws : List RawTerm} {ts : List Term} {p : SparsePoly} {e : Scalar} {n : ℕ}

def rawSum (raws : List RawTerm) (v : ℚ) : ℚ :=
  ((raws.filter fun raw => raw.exponent.value? = some v).map fun raw =>
    raw.coefficient.value?.getD 0).sum

theorem ofRawTerms_eq_ok : ofRawTerms raws = .ok p ↔
    ∃ ts, List.Forall₂ (fun raw t => raw.toTerm = .ok t) raws ts ∧ ofTerms ts = p := by
  rw [ofRawTerms, map_eq_ok]
  simp only [mapM_eq_ok, eq_comm (a := p)]

theorem ofRawTerms_eq_error {f : Failure} : ofRawTerms raws = .error f ↔
    ∃ before raw after, raws = before ++ raw :: after ∧ (∀ raw ∈ before, ¬raw.Faulty) ∧
      raw.Faulty ∧ f = .invalidTerm raw.coefficient.text raw.exponent.text := by
  rw [ofRawTerms, map_eq_error, mapM_eq_error]
  simp only [RawTerm.toTerm_eq_error, RawTerm.exists_toTerm_iff]

theorem rawSum_eq (h : List.Forall₂ (fun raw t => raw.toTerm = .ok t) raws ts) (n : ℕ) :
    rawSum raws n = coefficientSum ts n := by
  induction h with
  | nil => rfl
  | @cons raw t raws ts hraw _ ih =>
    obtain ⟨hc, he⟩ := RawTerm.toTerm_eq_ok.mp hraw
    have hsame : raw.exponent.value? = some (n : ℚ) ↔ t.exponent = n := by
      rw [he, Option.some_inj, Nat.cast_inj]
    rw [rawSum, coefficientSum] at *
    by_cases hn : t.exponent = n
    · rw [List.filter_cons_of_pos (by simpa using hsame.mpr hn),
        List.filter_cons_of_pos (by simpa using hn), List.map_cons, List.map_cons, List.sum_cons,
        List.sum_cons, ih, hc, Option.getD_some]
    · rw [List.filter_cons_of_neg (by simpa using mt hsame.mp hn),
        List.filter_cons_of_neg (by simpa using hn), ih]

theorem coefficientAt_of_value (he : e.value? = some (n : ℚ)) :
    p.coefficientAt e = .ok (p.coefficient n) := by
  obtain ⟨d, hd, hvalue⟩ := Scalar.value?_eq_some.mp he
  obtain rfl := Decimal.toRat_eq_natCast.mp hvalue
  rw [coefficientAt, hd]
  exact if_neg (Decimal.natural_iff.mpr ⟨n, rfl⟩)

theorem exists_coefficientAt_iff :
    (∃ c, p.coefficientAt e = .ok c) ↔ ∃ n : ℕ, e.value? = some (n : ℚ) := by
  constructor
  · intro h
    obtain ⟨c, hc⟩ := h
    rw [coefficientAt] at hc
    split at hc
    · cases hc
    · next d hd =>
      split at hc
      · cases hc
      · next hgood =>
        obtain ⟨n, rfl⟩ := Decimal.natural_iff.mp hgood
        exact ⟨n, Scalar.value?_eq_some.mpr ⟨_, hd, Decimal.toRat_eq_natCast.mpr rfl⟩⟩
  · intro h
    obtain ⟨n, hn⟩ := h
    exact ⟨_, coefficientAt_of_value hn⟩

theorem eq_of_coefficientAt_eq_error {f : Failure} (h : p.coefficientAt e = .error f) :
    f = .invalidArgument (.notExponent e) := by
  rw [coefficientAt] at h
  split at h
  · cases h
    rfl
  · split at h
    · cases h
      rfl
    · cases h

theorem exists_ofRawTerms_iff : (∃ p, ofRawTerms raws = .ok p) ↔ ∀ raw ∈ raws, ¬raw.Faulty := by
  simp only [← RawTerm.exists_toTerm_iff, ← exists_mapM_iff, ofRawTerms_eq_ok, ← mapM_eq_ok]
  constructor
  · intro h
    obtain ⟨p, ts, hts, -⟩ := h
    exact ⟨ts, hts⟩
  · intro h
    obtain ⟨ts, hts⟩ := h
    exact ⟨_, ts, hts, rfl⟩

theorem coefficient_eq_zero_of_maxExponent_lt (p : SparsePoly) (h : maxExponent < n) :
    p.coefficient n = 0 :=
  coefficient_eq_zero fun t _ => (t.exponent_le.trans_lt h).ne

end SparsePoly

namespace Plain.Row

/-- An exponent past 32 bits stands for no entry. -/
def coefficientAt (r : Row) (exponent : Scalar) : Except Failure Number :=
  match exponent.toDecimal with
  | .error _ => .error (.invalidArgument (.notExponent exponent))
  | .ok d =>
    if d.isNegative || !d.isInteger then .error (.invalidArgument (.notExponent exponent))
    else match d.toExponent with
      | .ok e => .ok (r.coefficient e)
      | .error _ => .ok .zero

theorem coefficientAt_row (p : SparsePoly) (e : Scalar) :
    p.row.coefficientAt e = (p.coefficientAt e).map Number.ofDecimal := by
  rw [coefficientAt, SparsePoly.coefficientAt]
  cases e.toDecimal with
  | error f => rfl
  | ok d =>
    have hsame : (d.isNegative || !d.isInteger) = true ↔
        d.isNegative = true ∨ ¬d.isInteger = true := by simp
    dsimp only
    by_cases hbad : d.isNegative = true ∨ ¬d.isInteger = true
    · rw [if_pos (hsame.mpr hbad), if_pos hbad]
      rfl
    obtain ⟨n, rfl⟩ := Decimal.natural_iff.mp hbad
    rw [if_neg (mt hsame.mp hbad), if_neg hbad]
    change _ = Except.ok (Number.ofDecimal (p.coefficient n))
    by_cases hn : n ≤ maxExponent
    · rw [Reader.toExponent_ofInt hn, ← SparsePoly.coefficient_row]
    · rw [p.coefficient_eq_zero_of_maxExponent_lt (not_le.mp hn)]
      cases hexponent : (Decimal.ofInt n).toExponent with
      | error f => rfl
      | ok k =>
        have hk : n = k := by
          have hvalue := Grammar.toExponent_iff.mp hexponent
          rw [Decimal.toRat_ofInt, Int.cast_natCast] at hvalue
          exact_mod_cast hvalue
        exact absurd (hk ▸ k.2) hn

end Plain.Row

namespace SparsePoly

/-- Raw terms are refused if one of them is faulty, and then the first such one is told. Otherwise the
coefficient at a number is refused if the number is not finite, negative or no integer, and else it is
the exact sum of the coefficients whose exponents have its value. A double has the value of a shortest
decimal that rounds to it. Rows of entries that look exponents up by 32 bits give the same answers. -/
theorem coefficientAt_ofRawTerms (raws : List RawTerm) :
    (∀ (x : Binary64) (v : ℚ), (Scalar.double x).value? = some v ↔ x.Means v) ∧
    ((∃ f, ofRawTerms raws = .error f) ↔ ∃ raw ∈ raws, raw.Faulty) ∧
    (∀ f, ofRawTerms raws = .error f ↔ ∃ before raw after, raws = before ++ raw :: after ∧
      (∀ raw ∈ before, ¬raw.Faulty) ∧ raw.Faulty ∧
      f = .invalidTerm raw.coefficient.text raw.exponent.text) ∧
    Plain.Row.ofRawTerms raws = (ofRawTerms raws).map row ∧
    ∀ p, ofRawTerms raws = .ok p → ∀ e : Scalar,
      (∀ f, p.coefficientAt e = .error f ↔
        (¬e.IsFinite ∨ ∃ v, e.value? = some v ∧ (v < 0 ∨ ¬∃ z : ℤ, v = z)) ∧
          f = .invalidArgument (.notExponent e)) ∧
      (∀ n : ℕ, e.value? = some (n : ℚ) → ∃ c, p.coefficientAt e = .ok c ∧
        c.toRat = rawSum raws n ∧ (maxExponent < n → c = 0)) ∧
      p.row.coefficientAt e = (p.coefficientAt e).map Plain.Number.ofDecimal := by
  have hfails : (∃ f, ofRawTerms raws = .error f) ↔ ¬∃ p, ofRawTerms raws = .ok p := by
    cases ofRawTerms raws with
    | error f => simp
    | ok p => simp
  refine ⟨fun x v => Scalar.value?_double, ?_, fun f => ofRawTerms_eq_error,
    Plain.Row.ofRawTerms_eq raws, fun p hp e => ⟨fun f => ?_, fun n hn => ?_, ?_⟩⟩
  · rw [hfails, exists_ofRawTerms_iff]
    simp
  · rw [eq_error_iff fun f hf => eq_of_coefficientAt_eq_error hf, exists_coefficientAt_iff,
      Scalar.not_exists_natural_iff]
  · obtain ⟨ts, hts, rfl⟩ := ofRawTerms_eq_ok.mp hp
    refine ⟨_, coefficientAt_of_value hn, ?_, coefficient_eq_zero_of_maxExponent_lt _⟩
    rw [toRat_coefficient_ofTerms, rawSum_eq hts]
  · exact Plain.Row.coefficientAt_row p e

theorem coefficientAt_ofRawTerms_mixed :
    let two := Scalar.double ⟨0x4000000000000000⟩
    let beyond := Scalar.integer 4294967296
    let raws : List RawTerm := [⟨.integer 3, two⟩, ⟨.double ⟨0x3ff8000000000000⟩, .integer 2⟩,
      ⟨.decimal (Decimal.ofScaled (-5) 1), .decimal (Decimal.ofInt 2)⟩]
    let p := ofTerms [⟨Decimal.ofInt 4, 2, by decide⟩]
    ofRawTerms raws = .ok p ∧ two.value? = some (2 : ℕ) ∧
      p.coefficientAt two = .ok (Decimal.ofInt 4) ∧ rawSum raws (2 : ℕ) = 4 ∧
      beyond.value? = some (4294967296 : ℕ) ∧ p.coefficientAt beyond = .ok 0 := by
  intro two beyond raws p
  have hp : ofRawTerms raws = .ok p := by decide +kernel
  have htwo : two.value? = some (2 : ℕ) :=
    Scalar.value?_eq_some.mpr ⟨Decimal.ofInt 2, by decide +kernel, by norm_num⟩
  have hbeyond : beyond.value? = some (4294967296 : ℕ) := by norm_num [beyond, Scalar.value?]
  have hfour : p.coefficientAt two = .ok (Decimal.ofInt 4) := by decide +kernel
  obtain ⟨-, -, -, -, hasked⟩ := coefficientAt_ofRawTerms raws
  obtain ⟨c, hc, hsum, -⟩ := (hasked p hp two).2.1 2 htwo
  obtain ⟨c', hc', -, hzero⟩ := (hasked p hp beyond).2.1 4294967296 hbeyond
  obtain rfl := Except.ok.inj (hc.symm.trans hfour)
  refine ⟨hp, htwo, hfour, ?_, hbeyond, ?_⟩
  · rw [← hsum, Decimal.toRat_ofInt]
    norm_num
  · rw [hc', hzero (by decide)]

end SparsePoly

end DecimalPoly
