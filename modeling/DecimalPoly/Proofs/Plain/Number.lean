import DecimalPoly.Decimal.Division
import DecimalPoly.Proofs.Decimal.Value

/-! Decimals as bare pairs of a mantissa and a scale, which may be in lowest terms or not. Sums,
differences, products and quotients take trailing zeros off, a change of sign leaves the digits as
they are. On pairs that come from decimals they compute what decimals do. -/
namespace DecimalPoly.Plain

structure Number where
  mantissa : Int
  scale : Nat
deriving DecidableEq

namespace Number

def zero : Number := ⟨0, 0⟩
def ofInt (n : Int) : Number := ⟨n, 0⟩
def ofDecimal (d : Decimal) : Number := ⟨d.mantissa, d.scale⟩

def isZero (x : Number) : Bool := x.mantissa = 0

def Lowest (x : Number) : Prop := x.scale = 0 ∨ x.mantissa % 10 ≠ 0

instance : DecidablePred Lowest := fun x => inferInstanceAs (Decidable (x.scale = 0 ∨ _))

def normal (m : Int) (s : Nat) : Number :=
  if m = 0 then zero else ⟨(Decimal.stripZeros m s).1, (Decimal.stripZeros m s).2⟩

def mantissaAt (x : Number) (s : Nat) : Int := x.mantissa * tenPow (s - x.scale)

def add (x y : Number) : Number :=
  let s := max x.scale y.scale
  normal (x.mantissaAt s + y.mantissaAt s) s

def sub (x y : Number) : Number :=
  let s := max x.scale y.scale
  normal (x.mantissaAt s - y.mantissaAt s) s

def mul (x y : Number) : Number := normal (x.mantissa * y.mantissa) (x.scale + y.scale)

def neg (x : Number) : Number := ⟨-x.mantissa, x.scale⟩

/-- The quotient to at least one significant digit, none for a divisor of zero. -/
def div? (x y : Number) (precision : Nat) : Option Number :=
  if y.isZero then none
  else if x.isZero then some zero
  else
    let precision := max 1 precision
    let m := x.mantissa.natAbs
    let n := y.mantissa.natAbs
    let shift : Int := precision + 1 - (Decimal.numDigits m - Decimal.numDigits n)
    let numerator := m * tenPow shift.toNat
    let denominator := n * tenPow (-shift).toNat
    let digits := numerator / denominator
    let dropped := Decimal.numDigits digits - precision
    let rounded := Decimal.roundHalfEven digits dropped (numerator % denominator ≠ 0)
    let scale : Int := shift + x.scale - y.scale - dropped
    some (normal (x.mantissa.sign * y.mantissa.sign * rounded * tenPow (-scale).toNat) scale.toNat)

theorem normal_eq (m : Int) (s : Nat) : normal m s = ofDecimal (Decimal.ofScaled m s) := by
  rw [normal, Decimal.ofScaled]
  split <;> rfl

theorem lowest_ofDecimal (d : Decimal) : (ofDecimal d).Lowest := d.lowest

theorem lowest_normal (m : Int) (s : Nat) : (normal m s).Lowest := by
  rw [normal_eq]
  exact lowest_ofDecimal _

theorem lowest_add (x y : Number) : (x.add y).Lowest := lowest_normal ..

theorem isZero_iff {x : Number} : x.isZero = true ↔ x.mantissa = 0 := decide_eq_true_iff

theorem isZero_ofDecimal (d : Decimal) : (ofDecimal d).isZero = true ↔ d = 0 :=
  isZero_iff.trans Decimal.mantissa_eq_zero

@[simp] theorem add_ofDecimal (a b : Decimal) :
    (ofDecimal a).add (ofDecimal b) = ofDecimal (a + b) := normal_eq ..

@[simp] theorem sub_ofDecimal (a b : Decimal) :
    (ofDecimal a).sub (ofDecimal b) = ofDecimal (a - b) := normal_eq ..

@[simp] theorem mul_ofDecimal (a b : Decimal) :
    (ofDecimal a).mul (ofDecimal b) = ofDecimal (a * b) := normal_eq ..

@[simp] theorem neg_ofDecimal (a : Decimal) : (ofDecimal a).neg = ofDecimal (-a) := rfl

theorem div?_ofDecimal (a b : Decimal) (precision : Nat) :
    (ofDecimal a).div? (ofDecimal b) precision = (a.div? b precision).map ofDecimal := by
  rw [div?, Decimal.div?]
  by_cases hb : b = 0
  · rw [if_pos ((isZero_ofDecimal b).mpr hb), if_pos hb]
    rfl
  rw [if_neg (mt (isZero_ofDecimal b).mp hb), if_neg hb, Decimal.div]
  by_cases ha : a = 0
  · rw [if_pos ((isZero_ofDecimal a).mpr ha), if_pos (.inl ha)]
    rfl
  rw [if_neg (mt (isZero_ofDecimal a).mp ha), if_neg (not_or.mpr ⟨ha, hb⟩)]
  exact congrArg some (normal_eq ..)

theorem div?_eq_some {a b : Decimal} (hb : b ≠ 0) (precision : Nat) :
    (ofDecimal a).div? (ofDecimal b) precision = some (ofDecimal (a.div b precision)) := by
  rw [div?_ofDecimal, Decimal.div?, if_neg hb, Option.map_some]

def toRat (x : Number) : ℚ := x.mantissa / 10 ^ x.scale

@[simp] theorem toRat_ofDecimal (d : Decimal) : (ofDecimal d).toRat = d.toRat := rfl

@[simp] theorem toRat_normal (m : Int) (s : Nat) : (normal m s).toRat = m / 10 ^ s := by
  rw [normal_eq, toRat_ofDecimal, Decimal.toRat_ofScaled]

@[simp] theorem toRat_zero : zero.toRat = 0 := by simp [toRat, zero]

@[simp] theorem toRat_add (x y : Number) : (x.add y).toRat = x.toRat + y.toRat := by
  rw [add, toRat_normal, Int.cast_add, mantissaAt, mantissaAt,
    Decimal.rescaled_value _ (Nat.le_max_left ..), Decimal.rescaled_value _ (Nat.le_max_right ..),
    ← add_mul]
  exact mul_div_cancel_right₀ _ (by positivity)

@[simp] theorem toRat_sub (x y : Number) : (x.sub y).toRat = x.toRat - y.toRat := by
  rw [sub, toRat_normal, Int.cast_sub, mantissaAt, mantissaAt,
    Decimal.rescaled_value _ (Nat.le_max_left ..), Decimal.rescaled_value _ (Nat.le_max_right ..),
    ← sub_mul]
  exact mul_div_cancel_right₀ _ (by positivity)

@[simp] theorem toRat_mul (x y : Number) : (x.mul y).toRat = x.toRat * y.toRat := by
  rw [mul, toRat_normal, Int.cast_mul, pow_add, toRat, toRat, div_mul_div_comm]

theorem toRat_eq_zero {x : Number} : x.toRat = 0 ↔ x.isZero = true := by
  rw [toRat, isZero_iff, div_eq_zero_iff]
  simp

end Number
end DecimalPoly.Plain
