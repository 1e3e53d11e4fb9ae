import DecimalPoly.Proofs.Decimal.Digits
import DecimalPoly.Proofs.Plain.Number
import DecimalPoly.Proofs.Text.Numeral

/-! The notation of bare pairs. By the number of digits there are three layouts: no point, a point
between digits, and zeros between the point and the digits. The reader cuts at the first point and
makes one check after the other. On decimals both are the notation of decimals. -/
namespace DecimalPoly.Plain.Number

def layout (digits : List Char) (scale : Nat) : List Char :=
  if scale = 0 then digits
  else if scale < digits.length then
    digits.take (digits.length - scale) ++ '.' :: digits.drop (digits.length - scale)
  else '0' :: '.' :: (List.replicate (scale - digits.length) '0' ++ digits)

def toChars (x : Number) : List Char :=
  let digits := layout (Nat.toDigits 10 x.mantissa.natAbs) x.scale
  if x.mantissa < 0 then '-' :: digits else digits

def text (x : Number) : String := String.ofList x.toChars

def label (x : Number) : String := s!"Decimal({x.text})"

def read (s : String) : Except Failure Number :=
  let (negative, body) := Decimal.splitSign s.toList
  let whole := body.takeWhile (· ≠ '.')
  if whole = [] ∧ Decimal.fraction body = [] then .error (.invalidNumber s)
  else if ¬(whole ++ Decimal.fraction body).all Char.isDigit then .error (.invalidNumber s)
  else if maxScale < (Decimal.fraction body).length then .error (.invalidNumber s)
  else
    let magnitude : Int := Nat.ofDigitChars 10 (whole ++ Decimal.fraction body) 0
    .ok (normal (if negative then -magnitude else magnitude) (Decimal.fraction body).length)

/-- None if the number is no natural number or larger than the largest exponent. -/
def toExponent? (x : Number) : Option Nat :=
  if x.scale = 0 ∧ 0 ≤ x.mantissa ∧ x.mantissa ≤ maxExponent then some x.mantissa.toNat else none

section
variable {digits : List Char} {scale : Nat}

theorem layout_eq_positional (h : digits ≠ []) :
    layout digits scale = Decimal.positional digits scale := by
  have hpos := List.length_pos_iff.mpr h
  rw [layout, Decimal.positional, List.leftpad]
  by_cases hzero : scale = 0
  · have hnone : scale + 1 - digits.length = 0 := by omega
    rw [if_pos hzero, hnone]
    exact (if_pos hzero).symm
  rw [if_neg hzero]
  by_cases hlong : scale < digits.length
  · have hnone : scale + 1 - digits.length = 0 := by omega
    simp only [hlong, hzero, hnone, if_true, if_false, List.replicate_zero, List.nil_append]
  · have hone : scale + 1 - digits.length = scale - digits.length + 1 := by omega
    have hcut : (List.replicate (scale - digits.length + 1) '0' ++ digits).length - scale = 1 := by
      rw [List.length_append, List.length_replicate]
      omega
    rw [if_neg hlong, hone]
    simp only [hcut, hzero, if_false]
    rfl

theorem toChars_ofDecimal (d : Decimal) : (ofDecimal d).toChars = d.toChars := by
  rw [toChars, Decimal.toChars, Decimal.unsignedChars, Decimal.isNegative]
  simp only [layout_eq_positional Nat.toDigits_ne_nil, decide_eq_true_eq]
  rfl

theorem text_ofDecimal (d : Decimal) : (ofDecimal d).text = d.text := by
  rw [text, toChars_ofDecimal]
  rfl

theorem label_ofDecimal (d : Decimal) : (ofDecimal d).label = d.label := by
  have htext : toString (ofDecimal d).text = toString d := text_ofDecimal d
  rw [label, Decimal.label, htext]

theorem read_eq (s : String) : read s = (Decimal.read s).map ofDecimal := by
  rw [read, Decimal.read, Decimal.ofText?, Decimal.ofChars?]
  generalize Decimal.splitSign s.toList = parts
  obtain ⟨negative, body⟩ := parts
  dsimp only
  rw [Decimal.ofUnsignedChars?]
  generalize body.takeWhile (fun c => decide (c ≠ '.')) = whole
  generalize Decimal.fraction body = behind
  have hnil : whole = [] ∧ behind = [] ↔ whole ++ behind = [] := List.append_eq_nil_iff.symm
  by_cases hok : whole ++ behind ≠ [] ∧ (whole ++ behind).all Char.isDigit = true ∧
      behind.length ≤ maxScale
  · rw [if_neg (mt hnil.mp hok.1), if_neg (not_not.mpr hok.2.1), if_neg (Nat.not_lt.mpr hok.2.2),
      if_pos hok, normal_eq]
    cases negative with
    | false => rfl
    | true =>
      have hneg : -Decimal.ofScaled (Nat.ofDigitChars 10 (whole ++ behind) 0) behind.length =
          Decimal.ofScaled (-(Nat.ofDigitChars 10 (whole ++ behind) 0 : ℤ)) behind.length := by
        apply Decimal.toRat_injective
        rw [Decimal.toRat_neg, Decimal.toRat_ofScaled, Decimal.toRat_ofScaled, Int.cast_neg, neg_div]
      exact congrArg (fun d => Except.ok (ofDecimal d)) hneg.symm
  · rw [if_neg hok]
    by_cases hempty : whole = [] ∧ behind = []
    · rw [if_pos hempty]
      rfl
    rw [if_neg hempty]
    by_cases hdigits : (whole ++ behind).all Char.isDigit = true
    · have hlong : maxScale < behind.length :=
        Nat.not_le.mp fun hle => hok ⟨mt hnil.mpr hempty, hdigits, hle⟩
      rw [if_neg (not_not.mpr hdigits), if_pos hlong]
      rfl
    · rw [if_pos hdigits]
      rfl

end

theorem toExponent?_ofDecimal (d : Decimal) :
    (ofDecimal d).toExponent? = d.toExponent.toOption.map Subtype.val := by
  rw [Decimal.toExponent]
  by_cases hint : d.isInteger = true
  · rw [if_pos hint]
    by_cases hfits : d.mantissa.toNat ≤ maxExponent ∧ 0 ≤ d.mantissa
    · rw [dif_pos hfits]
      exact if_pos ⟨of_decide_eq_true hint, hfits.2, Int.toNat_le.mp hfits.1⟩
    · rw [dif_neg hfits]
      exact if_neg fun h => hfits ⟨Int.toNat_le.mpr h.2.2, h.2.1⟩
  · rw [if_neg hint]
    exact if_neg fun h => hint (decide_eq_true h.1)

end DecimalPoly.Plain.Number
