import DecimalPoly.Proofs.Plain.Number
import DecimalPoly.Proofs.Decimal.Quotient

/-! The digits of a quotient before it is rounded. On bare pairs the precision is a signed word, powers
of ten stop at a largest one, and digits are dropped where there are too many. As long as the shift
fits there always are, one or two, so what is rounded is never a quotient that was not cut off. -/
namespace DecimalPoly.Plain
open Decimal

def maxSigned : Nat := 9223372036854775807

def maxPower : Nat := 4294967295

namespace Number

def signedPrecision (precision : Nat) : Nat := min (max precision 1) maxSigned

def shift (x y : Number) (precision : Nat) : Int :=
  precision + 1 - (numDigits x.mantissa.natAbs - numDigits y.mantissa.natAbs)

/-- The magnitude of the quotient after a shift to either side by a power of ten, which lengthens the
one or the other. -/
def cutAt (x y : Number) (shift : Int) (power : Nat) (scale : Int) : CutQuotient :=
  let (numerator, denominator) :=
    if 0 ≤ shift then (x.mantissa.natAbs * tenPow power, y.mantissa.natAbs)
    else (x.mantissa.natAbs, y.mantissa.natAbs * tenPow power)
  { digits := numerator / denominator
    inexact := numerator % denominator ≠ 0
    scale := scale }

def cut (x y : Number) (precision : Nat) : CutQuotient :=
  let shift := x.shift y precision
  x.cutAt y shift (min shift.natAbs maxPower) (shift + x.scale - y.scale)

end Number

def excessDigits (q : CutQuotient) (precision : Nat) : Int := numDigits q.digits - precision

def dropExcess (q : CutQuotient) (precision : Nat) : Nat × Int :=
  if 0 < excessDigits q precision then
    let dropped := min (excessDigits q precision).toNat maxPower
    (roundHalfEven q.digits dropped q.inexact, q.scale - dropped)
  else (q.digits, q.scale)

/-- The shift stays in a signed word on its way and ends within the largest power. -/
structure ShiftFits (x y : Number) (precision : Nat) : Prop where
  signed : precision < maxSigned
  power : (x.shift y precision).natAbs ≤ maxPower

section
variable {x y : Number} {p : Nat}

theorem ShiftFits.signedPrecision (h : ShiftFits x y p) (hp : 1 ≤ p) :
    Number.signedPrecision p = p := by
  have := h.signed
  rw [Number.signedPrecision]
  omega

theorem Number.cutAt_eq (x y : Number) (shift scale : Int) : x.cutAt y shift shift.natAbs scale =
    let numerator := x.mantissa.natAbs * tenPow shift.toNat
    let denominator := y.mantissa.natAbs * tenPow (-shift).toNat
    { digits := numerator / denominator
      inexact := numerator % denominator ≠ 0
      scale := scale } := by
  have hone : tenPow 0 = 1 := rfl
  rw [cutAt]
  by_cases hs : 0 ≤ shift
  · have hneg : (-shift).toNat = 0 := by omega
    have habs : shift.natAbs = shift.toNat := by omega
    simp only [if_pos hs, hneg, habs, hone, Nat.mul_one]
  · have hpos : shift.toNat = 0 := by omega
    have habs : shift.natAbs = (-shift).toNat := by omega
    simp only [if_neg hs, hpos, habs, hone, Nat.mul_one]

theorem ShiftFits.cut_eq (h : ShiftFits x y p) : x.cut y p =
    let numerator := x.mantissa.natAbs * tenPow (x.shift y p).toNat
    let denominator := y.mantissa.natAbs * tenPow (-x.shift y p).toNat
    { digits := numerator / denominator
      inexact := numerator % denominator ≠ 0
      scale := x.shift y p + x.scale - y.scale } := by
  rw [Number.cut, Nat.min_eq_left h.power]
  exact x.cutAt_eq y _ _

end

variable {a b : Decimal} {p : Nat}

theorem cut_ofDecimal (h : ShiftFits (.ofDecimal a) (.ofDecimal b) p) :
    (Number.ofDecimal a).cut (.ofDecimal b) p = cutQuotient a b p := h.cut_eq

theorem excessDigits_cutQuotient (ha : a ≠ 0) (hb : b ≠ 0) (p : Nat) :
    excessDigits (cutQuotient a b p) p = excess a b p ∧
      (excess a b p = 1 ∨ excess a b p = 2) := by
  obtain ⟨hmore, hless⟩ := numDigits_cutQuotient ha hb p
  rw [excessDigits, excess]
  omega

theorem dropExcess_cutQuotient (ha : a ≠ 0) (hb : b ≠ 0) (p : Nat) :
    dropExcess (cutQuotient a b p) p = (roundedDigits a b p, roundedScale a b p) := by
  obtain ⟨heq, hcases⟩ := excessDigits_cutQuotient ha hb p
  have hpos : (0 : Int) < excess a b p := by omega
  have hmax : min (excess a b p) maxPower = excess a b p := by
    rw [maxPower]
    omega
  rw [dropExcess, heq, if_pos hpos, Int.toNat_natCast, hmax]
  rfl

/-- The quotient that is cut off has one or two digits more than the precision, whichever way it was
shifted. So digits are always dropped, and they are dropped from the floor of the exact quotient at
that scale, with a flag that tells whether anything was below it. -/
theorem digit_estimate (ha : a ≠ 0) (hb : b ≠ 0) (hp : 1 ≤ p)
    (h : ShiftFits (.ofDecimal a) (.ofDecimal b) p) :
    let precision := Number.signedPrecision p
    let q := (Number.ofDecimal a).cut (.ofDecimal b) precision
    let v := |a.toRat / b.toRat| * 10 ^ q.scale
    (numDigits q.digits = p + 1 ∨ numDigits q.digits = p + 2) ∧
      (excessDigits q precision = 1 ∨ excessDigits q precision = 2) ∧
      dropExcess q precision =
        (roundHalfEven q.digits (excessDigits q precision).toNat q.inexact,
          q.scale - excessDigits q precision) ∧
      (v = (a.mantissa.natAbs : ℚ) / b.mantissa.natAbs *
        10 ^ (Number.ofDecimal a).shift (.ofDecimal b) precision) ∧
      (q.digits : ℚ) ≤ v ∧ v - q.digits < 1 ∧ (q.inexact = true ↔ v ≠ q.digits) ∧
      q = cutQuotient a b p ∧
      a.div? b p = some (ofSignedScale
        (a.mantissa.sign * b.mantissa.sign * (dropExcess q precision).1)
        (dropExcess q precision).2) := by
  have hmax : max 1 p = p := Nat.max_eq_right hp
  obtain ⟨hmore, hless⟩ := numDigits_cutQuotient ha hb p
  obtain ⟨hexcess, hcases⟩ := excessDigits_cutQuotient ha hb p
  obtain ⟨hle, hlt, hflag⟩ := cutQuotient_floor (a := a) hb p
  have hdrop := dropExcess_cutQuotient ha hb p
  rw [h.signedPrecision hp]
  dsimp only
  rw [cut_ofDecimal h, hdrop, hexcess]
  refine ⟨by omega, by omega, rfl, cutQuotient_scaled hb p, hle, ?_, hflag, rfl, ?_⟩
  · rwa [sub_lt_iff_lt_add']
  · rw [Decimal.div?, if_neg hb, div_eq ha hb, hmax]

theorem digit_estimate_both_ways :
    let a := Decimal.ofInt 123456789
    let b := Decimal.ofInt (-3)
    let q := (Number.ofDecimal a).cut (.ofDecimal b) (Number.signedPrecision 2)
    let r := (Number.ofDecimal b).cut (.ofDecimal a) (Number.signedPrecision 2)
    a ≠ 0 ∧ b ≠ 0 ∧ 1 ≤ 2 ∧ ShiftFits (.ofDecimal a) (.ofDecimal b) 2 ∧
      ShiftFits (.ofDecimal b) (.ofDecimal a) 2 ∧ q.digits = 411 ∧ q.scale = -5 ∧
      r.digits = 2430 ∧ r.scale = 11 ∧
      a.div? b 2 = some (ofSignedScale (-41) (-6)) ∧ b.div? a 2 = some (ofSignedScale (-24) 9) := by
  intro a b q r
  have ha : a ≠ 0 := by decide
  have hb : b ≠ 0 := by decide
  have hq : ShiftFits (.ofDecimal a) (.ofDecimal b) 2 := ⟨by decide, by decide +kernel⟩
  have hr : ShiftFits (.ofDecimal b) (.ofDecimal a) 2 := ⟨by decide, by decide +kernel⟩
  have hdropq : dropExcess q (Number.signedPrecision 2) = (41, -6) := by decide +kernel
  have hdropr : dropExcess r (Number.signedPrecision 2) = (24, 9) := by decide +kernel
  obtain ⟨-, -, -, -, -, -, -, -, hdivq⟩ := digit_estimate ha hb (by decide) hq
  obtain ⟨-, -, -, -, -, -, -, -, hdivr⟩ := digit_estimate hb ha (by decide) hr
  rw [hdropq] at hdivq
  rw [hdropr] at hdivr
  exact ⟨ha, hb, by decide, hq, hr, by decide +kernel, by decide +kernel, by decide +kernel,
    by decide +kernel, hdivq, hdivr⟩

end DecimalPoly.Plain
