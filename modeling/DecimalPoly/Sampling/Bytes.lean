import DecimalPoly.SparsePoly.Basic

/-! Decimals and polynomials made from bytes. Every list of bytes makes one: what is missing at its
end counts as zero. -/
namespace DecimalPoly.Sampling

abbrev ByteReader := StateM (List UInt8)

def littleEndian : List UInt8 → Nat
  | [] => 0
  | b :: bs => b.toNat + 256 * littleEndian bs

/-- A 32-bit integer in two's complement. -/
def readInt32 : ByteReader Int := do
  let bytes ← get
  set (bytes.drop 4)
  return (littleEndian (bytes.take 4) : Int).bmod 4294967296

/-- A number up to `n`: one byte modulo `n + 1`. -/
def readUpTo (n : Nat) : ByteReader (Fin (n + 1)) := do
  let bytes ← get
  set (bytes.drop 1)
  return Fin.ofNat (n + 1) (bytes.headD 0).toNat

def readDecimal : ByteReader Decimal := do
  let mantissa ← readInt32
  let scale ← readUpTo 4
  return Decimal.ofScaled mantissa scale

def readTerm : ByteReader Term := do
  let coefficient ← readDecimal
  let exponent ← readUpTo 16
  return ⟨coefficient, exponent, Nat.le_trans (Nat.le_of_lt_succ exponent.2) (by decide)⟩

def readTerms : Nat → ByteReader (List Term)
  | 0 => return []
  | n + 1 => do
    let t ← readTerm
    let ts ← readTerms n
    return t :: ts

def readPolynomial : ByteReader SparsePoly := do
  let count ← readUpTo 8
  return SparsePoly.ofTerms (← readTerms count)

end DecimalPoly.Sampling
