/-! Exact decimals: an integer mantissa over a power of ten, in lowest terms, so that equal
numbers are equal values. `ofScaled` makes the normal form of any mantissa and scale; sum,
difference, product, power and order are exact. -/
namespace DecimalPoly

def tenPow (n : Nat) : Nat := Nat.pow 10 n

theorem tenPow_succ (n : Nat) : tenPow (n + 1) = tenPow n * 10 := rfl

theorem tenPow_pos (n : Nat) : 0 < tenPow n := Nat.pow_pos (by decide)

/-- The number `mantissa / 10 ^ scale`. A scale is spent only on a last digit other than zero. -/
structure Decimal where
  mantissa : Int
  scale : Nat
  lowest : scale = 0 ∨ mantissa % 10 ≠ 0
deriving DecidableEq

namespace Decimal

theorem ext {a b : Decimal} (hm : a.mantissa = b.mantissa) (hs : a.scale = b.scale) : a = b := by
  cases a; cases b; simp_all

/-- Gives up one place for each trailing zero, as long as there are places. -/
def stripZeros : Int → Nat → Int × Nat
  | m, 0 => (m, 0)
  | m, s + 1 => if m % 10 = 0 then stripZeros (m / 10) s else (m, s + 1)

theorem stripZeros_lowest (m : Int) (s : Nat) :
    (stripZeros m s).2 = 0 ∨ (stripZeros m s).1 % 10 ≠ 0 := by
  induction s generalizing m with
  | zero => exact .inl rfl
  | succ s ih =>
    unfold stripZeros
    split
    · exact ih (m / 10)
    · next h => exact .inr h

def ofInt (n : Int) : Decimal := ⟨n, 0, .inl rfl⟩

instance : Zero Decimal := ⟨ofInt 0⟩
instance : One Decimal := ⟨ofInt 1⟩
instance : Inhabited Decimal := ⟨0⟩

/-- The decimal `m / 10 ^ s`. Zero is met first: it has no last digit to stop at. -/
def ofScaled (m : Int) (s : Nat) : Decimal :=
  if m = 0 then 0 else ⟨(stripZeros m s).1, (stripZeros m s).2, stripZeros_lowest m s⟩

def isNegative (d : Decimal) : Bool := d.mantissa < 0
def isInteger (d : Decimal) : Bool := d.scale = 0

/-- The mantissa that `d` has at `s` places, for `s` not below its own scale. -/
def mantissaAt (d : Decimal) (s : Nat) : Int := d.mantissa * tenPow (s - d.scale)

def add (a b : Decimal) : Decimal :=
  let s := max a.scale b.scale
  ofScaled (a.mantissaAt s + b.mantissaAt s) s

def sub (a b : Decimal) : Decimal :=
  let s := max a.scale b.scale
  ofScaled (a.mantissaAt s - b.mantissaAt s) s

def mul (a b : Decimal) : Decimal := ofScaled (a.mantissa * b.mantissa) (a.scale + b.scale)

def neg (d : Decimal) : Decimal := ⟨-d.mantissa, d.scale, d.lowest.imp id (by omega)⟩

def abs (d : Decimal) : Decimal := ⟨d.mantissa.natAbs, d.scale, d.lowest.imp id (by omega)⟩

instance : Add Decimal := ⟨add⟩
instance : Sub Decimal := ⟨sub⟩
instance : Mul Decimal := ⟨mul⟩
instance : Neg Decimal := ⟨neg⟩

theorem neg_eq_zero {d : Decimal} : -d = 0 ↔ d = 0 := by
  constructor <;> intro h
  · have hs : (-d).scale = 0 := congrArg scale h
    exact ext (Int.neg_eq_zero.1 (congrArg mantissa h)) hs
  · subst h; rfl

def pow (d : Decimal) (n : Nat) : Decimal := ofScaled (d.mantissa.pow n) (d.scale * n)

def sum (ds : List Decimal) : Decimal := ds.foldl (· + ·) 0
def product (ds : List Decimal) : Decimal := ds.foldl (· * ·) 1

instance : Ord Decimal where
  compare a b :=
    let s := max a.scale b.scale
    compare (a.mantissaAt s) (b.mantissaAt s)

instance : LE Decimal := ⟨fun a b => (compare a b).isLE⟩
instance : LT Decimal := ⟨fun a b => (compare a b).isLT⟩
instance (a b : Decimal) : Decidable (a ≤ b) := inferInstanceAs (Decidable (_ = true))
instance (a b : Decimal) : Decidable (a < b) := inferInstanceAs (Decidable (_ = true))
instance : Max Decimal := maxOfLe
instance : Min Decimal := minOfLe

def sorted (ds : List Decimal) : List Decimal := ds.mergeSort (fun a b => a ≤ b)

end Decimal
end DecimalPoly
