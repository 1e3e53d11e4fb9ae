import DecimalPoly.Proofs.Binary64.RoundTrip
import DecimalPoly.Proofs.Decimal.Quotient
import DecimalPoly.Proofs.Text.Terse

/-! What numbers are written as where they are blamed. Integers have their digits, decimals their
notation. A double has a sign, and then a point among its digits or, if it is large or small, a power of
ten behind them; what is written has the value of its decimal. No double has more places than a scale
can count. -/
namespace DecimalPoly
open Grammar

namespace Binary64
open Decimal

inductive IsWritten (v : ℚ) : List Char → Prop where
  | positional {cs : List Char} (size : v = 0 ∨ 10 ^ (-4 : ℤ) ≤ v ∧ v < 10 ^ (16 : ℤ))
      (numeral : IsPositional cs) (point : '.' ∈ cs) (value : numeralValue cs = v) : IsWritten v cs
  | scientific {cs : List Char} {k : ℤ} (size : 0 < v ∧ (v < 10 ^ (-4 : ℤ) ∨ 10 ^ (16 : ℤ) ≤ v))
      (numeral : IsPositional cs) (leading : 1 ≤ numeralValue cs ∧ numeralValue cs < 10)
      (value : numeralValue cs * 10 ^ k = v) : IsWritten v (cs ++ 'e' :: (ofInt k).toChars)

section Digits
variable {d : Decimal} {ds : List Char}

theorem pointed_value (h : ∀ c ∈ ds, c.isDigit = true) (hne : ds ≠ []) :
    IsPositional (pointed ds) ∧
      numeralValue (pointed ds) = Nat.ofDigitChars 10 ds 0 / 10 ^ (ds.length - 1) := by
  cases ds with
  | nil => exact absurd rfl hne
  | cons c cs =>
  cases cs with
  | nil =>
    have hone : numeralValue [c] = Nat.ofDigitChars 10 [c] 0 / 10 ^ 0 := by
      rw [← numeralValue_digits h, toRat_ofScaled]
      rfl
    exact ⟨(isPositional_digits h).mpr hne, hone⟩
  | cons c' cs =>
    obtain ⟨hc, hcs⟩ := List.forall_mem_cons.mp h
    have hfirst : ∀ a ∈ [c], a.isDigit = true := List.forall_mem_singleton.mpr hc
    have hbehind : ∀ a ∈ c' :: cs, Reader.isNumeral a = true := fun a ha =>
      Reader.isNumeral_iff.mpr (.inl (hcs a ha))
    have hvalue : (ofScaled (Nat.ofDigitChars 10 (c :: c' :: cs) 0) (c' :: cs).length).toRat =
        numeralValue (c :: '.' :: c' :: cs) := numeralValue_point hfirst
    rw [toRat_ofScaled] at hvalue
    exact ⟨(isPositional_point hfirst hbehind).mpr ⟨hne, h⟩, hvalue.symm⟩

theorem decade_bounds (h : d ≠ 0) : (10 : ℚ) ^ ((significantDigits d).2 - 1) ≤ |d.toRat| ∧
    |d.toRat| < 10 ^ (significantDigits d).2 := by
  have h10 : (10 : ℚ) ≠ 0 := by norm_num
  have hpos : 0 < d.mantissa.natAbs := Int.natAbs_pos.mpr (mt mantissa_eq_zero.mp h)
  have hscaled (k : ℤ) : (10 : ℚ) ^ (k - d.scale) = 10 ^ k / 10 ^ d.scale := by
    rw [zpow_sub₀ h10, zpow_natCast]
  have hplace : (significantDigits d).2 = (numDigits d.mantissa.natAbs : ℤ) - d.scale := rfl
  rw [abs_toRat, hplace, sub_right_comm, hscaled, hscaled]
  constructor
  · gcongr
    exact pow_numDigits_le_cast hpos
  · gcongr
    exact lt_pow_numDigits_cast _

theorem exists_zeros (d : Decimal) : ∃ z, Nat.toDigits 10 d.mantissa.natAbs =
    (significantDigits d).1 ++ List.replicate z '0' := by
  generalize hl : (Nat.toDigits 10 d.mantissa.natAbs).reverse = l
  have hzeros : l.takeWhile (· = '0') = List.replicate (l.takeWhile (· = '0')).length '0' :=
    List.eq_replicate_of_mem fun c hc => by simpa using List.mem_takeWhile_imp hc
  refine ⟨(l.takeWhile (· = '0')).length, ?_⟩
  rw [significantDigits, hl, ← List.reverse_replicate, ← hzeros, ← List.reverse_append,
    List.takeWhile_append_dropWhile, ← hl, List.reverse_reverse]

theorem significantDigits_value (h : d ≠ 0) : (∀ c ∈ (significantDigits d).1, c.isDigit = true) ∧
    (significantDigits d).1 ≠ [] ∧ (Nat.ofDigitChars 10 (significantDigits d).1 0 : ℚ) *
      10 ^ ((significantDigits d).2 - (significantDigits d).1.length) = |d.toRat| := by
  have h10 : (10 : ℚ) ≠ 0 := by norm_num
  obtain ⟨z, hz⟩ := exists_zeros d
  have hplace : (significantDigits d).2 - (significantDigits d).1.length = (z : ℤ) - d.scale := by
    have hlength := congrArg List.length hz
    rw [List.length_append, List.length_replicate] at hlength
    rw [significantDigits] at hlength ⊢
    dsimp only at hlength ⊢
    omega
  generalize (significantDigits d).1 = ds at *
  have hvalue : d.mantissa.natAbs = 10 ^ z * Nat.ofDigitChars 10 ds 0 := by
    have hdigits := congrArg (fun cs => Nat.ofDigitChars 10 cs 0) hz
    simpa [Nat.ofDigitChars_ten_toDigits, Nat.ofDigitChars_append, Nat.ofDigitChars_replicate_zero]
      using hdigits
  refine ⟨fun c hc => ?_, ?_, ?_⟩
  · exact Nat.isDigit_of_mem_toDigits (b := 10) (n := d.mantissa.natAbs) (by decide) (by decide)
      (hz ▸ List.mem_append_left _ hc)
  · rintro rfl
    rw [Nat.ofDigitChars_nil, Nat.mul_zero, Int.natAbs_eq_zero, mantissa_eq_zero] at hvalue
    exact h hvalue
  · rw [abs_toRat, hvalue, hplace, zpow_sub₀ h10, zpow_natCast, zpow_natCast]
    push_cast
    ring

theorem isWritten_scientificChars (h : d ≠ 0)
    (hsize : (significantDigits d).2 ≤ -4 ∨ 16 < (significantDigits d).2) :
    IsWritten |d.toRat| (scientificChars d) := by
  have h10 : (10 : ℚ) ≠ 0 := by norm_num
  obtain ⟨hlow, hhigh⟩ := decade_bounds h
  obtain ⟨hdigits, hne, hvalue⟩ := significantDigits_value h
  rw [scientificChars]
  generalize significantDigits d = parts at *
  obtain ⟨ds, point⟩ := parts
  dsimp only at *
  obtain ⟨hnumeral, hpointed⟩ := pointed_value hdigits hne
  have hlength : ((ds.length - 1 : ℕ) : ℤ) = ds.length - 1 :=
    Nat.cast_pred (List.length_pos_iff.mpr hne)
  have hproduct : numeralValue (pointed ds) * 10 ^ (point - 1) = |d.toRat| := by
    rw [hpointed, ← hvalue, ← zpow_natCast, hlength, div_mul_eq_mul_div, mul_div_assoc,
      ← zpow_sub₀ h10]
    congr 2
    ring
  have hpower : (0 : ℚ) < 10 ^ (point - 1) := by positivity
  have hstep : (10 : ℚ) ^ point = 10 * 10 ^ (point - 1) := by rw [← zpow_one_add₀ h10, add_sub_cancel]
  refine .scientific ⟨hpower.trans_le hlow, ?_⟩ hnumeral ⟨?_, ?_⟩ hproduct
  · cases hsize with
    | inl hsmall => exact .inl (hhigh.trans_le (zpow_le_zpow_right₀ (by norm_num) hsmall))
    | inr hlarge => exact .inr (le_trans (zpow_le_zpow_right₀ (by norm_num) (by omega)) hlow)
  · rwa [← one_mul ((10 : ℚ) ^ (point - 1)), ← hproduct, mul_le_mul_iff_left₀ hpower] at hlow
  · rwa [hstep, ← hproduct, mul_lt_mul_iff_left₀ hpower] at hhigh

theorem point_mem_unsignedChars (h : d.scale ≠ 0) : '.' ∈ d.unsignedChars := by
  rw [Decimal.unsignedChars, positional]
  simp only [if_neg h]
  exact List.mem_append_right _ List.mem_cons_self

theorem unsignedChars_zero_value (h : d.scale = 0) :
    IsPositional (d.unsignedChars ++ ['.', '0']) ∧
      numeralValue (d.unsignedChars ++ ['.', '0']) = |d.toRat| := by
  have hdigits : ∀ c ∈ d.unsignedChars, c.isDigit = true := by
    rw [Decimal.unsignedChars, positional]
    simp only [if_pos h]
    exact isDigit_leftpad (isWhole_toDigits _).digits _
  have hzero : ∀ c ∈ ['0'], c.isDigit = true := List.forall_mem_singleton.mpr rfl
  have hbehind : ∀ c ∈ ['0'], Reader.isNumeral c = true := List.forall_mem_singleton.mpr rfl
  have hall := List.forall_mem_append.mpr ⟨hdigits, hzero⟩
  have hne : d.unsignedChars ++ ['0'] ≠ [] :=
    List.append_ne_nil_of_right_ne_nil _ (List.cons_ne_nil _ _)
  refine ⟨(isPositional_point hdigits hbehind).mpr ⟨hne, hall⟩, ?_⟩
  have hvalue := numeralValue_unsignedChars d
  rw [← numeralValue_digits hdigits, toRat_abs, toRat_ofScaled] at hvalue
  have hconcat : Nat.ofDigitChars 10 (d.unsignedChars ++ ['0']) 0 =
      10 * Nat.ofDigitChars 10 d.unsignedChars 0 := ofDigitChars_concat (k := 0) (by decide) _
  rw [← numeralValue_point hdigits, toRat_ofScaled, hconcat, ← hvalue]
  push_cast
  simp

theorem isWritten_unsignedChars (d : Decimal) : IsWritten |d.toRat| (unsignedChars d) := by
  rw [unsignedChars]
  by_cases hsize : d ≠ 0 ∧ ((significantDigits d).2 ≤ -4 ∨ 16 < (significantDigits d).2)
  · rw [if_pos hsize]
    exact isWritten_scientificChars hsize.1 hsize.2
  rw [if_neg hsize]
  have hmiddle : |d.toRat| = 0 ∨ (10 : ℚ) ^ (-4 : ℤ) ≤ |d.toRat| ∧ |d.toRat| < 10 ^ (16 : ℤ) := by
    by_cases hd : d = 0
    · left
      rw [hd, toRat_zero, abs_zero]
    · right
      obtain ⟨hlow, hhigh⟩ := decade_bounds hd
      have hplace : ¬((significantDigits d).2 ≤ -4 ∨ 16 < (significantDigits d).2) :=
        fun h => hsize ⟨hd, h⟩
      exact ⟨le_trans (zpow_le_zpow_right₀ (by norm_num) (by omega)) hlow,
        hhigh.trans_le (zpow_le_zpow_right₀ (by norm_num) (by omega))⟩
  by_cases hscale : d.scale = 0
  · have hint : d.isInteger = true := decide_eq_true hscale
    obtain ⟨hnumeral, hvalue⟩ := unsignedChars_zero_value hscale
    rw [if_pos hint]
    exact .positional hmiddle hnumeral (List.mem_append_right _ List.mem_cons_self) hvalue
  · have hint : ¬d.isInteger = true := mt of_decide_eq_true hscale
    rw [if_neg hint, List.append_nil]
    exact .positional hmiddle (isTerse_unsignedChars d).numeral (point_mem_unsignedChars hscale)
      ((numeralValue_unsignedChars d).trans (toRat_abs d))

end Digits
section Words
variable {x : Binary64} {d : Decimal}

theorem text_of_toDecimal? (h : x.toDecimal? = some d) : ∃ cs, IsWritten |d.toRat| cs ∧
    x.text = (if x.isNegative then "-" else "") ++ String.ofList cs := by
  refine ⟨unsignedChars d.abs, ?_, ?_⟩
  · have hwritten := isWritten_unsignedChars d.abs
    rwa [toRat_abs, abs_abs] at hwritten
  · rw [text, h]

theorem text_of_not_isFinite (h : ¬x.IsFinite) : x.text =
    if x.fractionField = 0 then (if x.isNegative then "-" else "") ++ "inf" else "NaN" := by
  rw [text, toDecimal?_eq_none h, magnitude, if_pos (not_not.mp h)]
  by_cases hf : x.fractionField = 0
  · simp only [if_pos hf]
  · simp only [if_neg hf]

theorem Interval.scale_shortest?_le {r : Interval} (h : r.shortest? = some d) :
    d.scale ≤ numDigits r.unit + 17 := by
  obtain ⟨i, hi, hd, -⟩ := findSome?_range h
  obtain ⟨n, -, rfl⟩ := Option.map_eq_some_iff.mp hd
  have hpoint : -(numDigits r.unit : ℤ) ≤ r.pointPlace := by
    rw [pointPlace]
    split <;> omega
  have hscale := scale_ofScaled_le (n * tenPow (- -(r.pointPlace - (i + 1))).toNat)
    (-(r.pointPlace - (i + 1))).toNat
  rw [ofSignedScale]
  omega

theorem numDigits_two_pow_le (k : ℕ) : numDigits (2 ^ k) ≤ k + 1 := by
  rw [numDigits_le_iff k.succ_pos]
  calc 2 ^ k ≤ 10 ^ k := Nat.pow_le_pow_left (by decide) k
    _ < 10 ^ (k + 1) := Nat.pow_lt_pow_right (by decide) k.lt_succ_self

theorem scale_le_of_toDecimal? (h : x.toDecimal? = some d) : d.scale ≤ maxScale := by
  have hfinite : x.IsFinite := by
    by_contra hno
    rw [toDecimal?_eq_none hno] at h
    cases h
  have hexponent : -1074 ≤ rungExponent x.word := by
    rw [rungExponent, binade]
    omega
  have hmax : 1094 ≤ maxScale := by decide
  have hbest (m : ℕ) (narrow : Bool) :
      ((Interval.around m (rungExponent x.word) narrow).shortest?.getD
        (exact m (rungExponent x.word))).scale ≤ maxScale := by
    cases hshortest : (Interval.around m (rungExponent x.word) narrow).shortest? with
    | none => exact (scale_ofScaled_le ..).trans (by omega)
    | some u =>
      have hunit : numDigits (Interval.around m (rungExponent x.word) narrow).unit ≤
          (2 - rungExponent x.word).toNat + 1 := numDigits_two_pow_le _
      exact (Interval.scale_shortest?_le hshortest).trans (by omega)
  rw [toDecimal?, magnitude_of_isFinite hfinite] at h
  cases hm : rungSignificand x.word with
  | zero =>
    rw [hm] at h
    cases h
    exact Nat.zero_le _
  | succ m =>
    rw [hm] at h
    cases h
    split <;> exact hbest _ _

end Words
end Binary64

namespace Scalar

/-- The texts by which numbers are blamed. A double that is no number has no sign, and zero has. -/
theorem text_spec : (∀ n : ℤ, (integer n).text = toString n) ∧
    (∀ d : Decimal, (decimal d).text = d.text) ∧
    ∀ x : Binary64, (¬x.IsFinite → (double x).text =
        if x.fractionField = 0 then (if x.isNegative then "-" else "") ++ "inf" else "NaN") ∧
      ∀ d, x.toDecimal? = some d → ∃ cs, Binary64.IsWritten |d.toRat| cs ∧
        (double x).text = (if x.isNegative then "-" else "") ++ String.ofList cs := by
  refine ⟨fun n => ?_, fun d => rfl, fun x => ⟨fun h => x.text_of_not_isFinite h, fun d hd => ?_⟩⟩
  · cases n with
    | ofNat n =>
      have hdigits : (Decimal.ofInt n).toChars = Nat.toDigits 10 n := Reader.unsignedChars_ofInt n
      change String.ofList (Decimal.ofInt n).toChars = Nat.repr n
      rw [hdigits]
      rfl
    | negSucc n =>
      have hdigits : (Decimal.ofInt (.negSucc n)).toChars = '-' :: Nat.toDigits 10 (n + 1) := by
        have hsign : (Decimal.ofInt (.negSucc n)).isNegative = true :=
          decide_eq_true (Int.negSucc_lt_zero n)
        have hneg : Decimal.ofInt (.negSucc n) = -Decimal.ofInt (n + 1 : ℕ) := rfl
        rw [Decimal.toChars, if_pos hsign, hneg, unsignedChars_neg, Reader.unsignedChars_ofInt]
      change String.ofList (Decimal.ofInt (.negSucc n)).toChars = "-" ++ Nat.repr (n + 1)
      rw [hdigits, String.ofList_cons]
      rfl
  · exact Binary64.text_of_toDecimal? hd

end Scalar
end DecimalPoly
