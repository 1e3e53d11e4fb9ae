import DecimalPoly.SparsePoly.Building

/-! Serialized forms. In any format that holds strings, a decimal and a polynomial are their texts. In
documents a term is a record of its coefficient and its exponent, and is also accepted as a list of
these two. -/
namespace DecimalPoly

/-- What a format makes of a string, and the string in what it is given, if that is one. -/
structure StringFormat (Data : Type) where
  write : String → Data
  read? : Data → Option String

structure StringFormat.Lawful {Data : Type} (format : StringFormat Data) : Prop where
  read?_write : ∀ s, format.read? (format.write s) = some s

section
variable {Data : Type} (format : StringFormat Data)

def Decimal.serialize (d : Decimal) : Data := format.write d.text

def Decimal.deserialize? (data : Data) : Option (Except Failure Decimal) :=
  (format.read? data).map Decimal.read

def SparsePoly.serialize (p : SparsePoly) : Data := format.write p.text

def SparsePoly.deserialize? (data : Data) : Option (Logged SparsePoly) :=
  (format.read? data).map SparsePoly.read

end

/-- Structured data. A number is `mantissa / 10 ^ places`, written with that many places. -/
inductive Document where
  | null
  | bool (b : Bool)
  | number (mantissa : Int) (places : Nat)
  | text (s : String)
  | list (items : List Document)
  | record (fields : List (String × Document))
deriving Inhabited

namespace Document

def text? : Document → Option String
  | .text s => some s
  | _ => none

def strings : StringFormat Document := ⟨text, text?⟩

theorem lawful_strings : strings.Lawful := ⟨fun _ => rfl⟩

def exponent? : Document → Option Exponent
  | .number (.ofNat n) 0 => if h : n ≤ maxExponent then some ⟨n, h⟩ else none
  | _ => none

end Document

def Decimal.toDocument : Decimal → Document := serialize Document.strings

def Decimal.ofDocument? : Document → Option (Except Failure Decimal) := deserialize? Document.strings

def SparsePoly.toDocument : SparsePoly → Document := serialize Document.strings

def SparsePoly.ofDocument? : Document → Option (Logged SparsePoly) := deserialize? Document.strings

namespace Term

def toDocument (t : Term) : Document :=
  .record [("coefficient", t.coefficient.toDocument), ("exponent", .number t.exponent 0)]

def ofParts? (coefficient exponent : Document) : Option Term := do
  let c ← Decimal.ofText? (← coefficient.text?)
  return ofExponent c (← exponent.exponent?)

/-- Other fields of a record are passed over. -/
def ofDocument? : Document → Option Term
  | .record fields => do
    ofParts? (← fields.lookup "coefficient") (← fields.lookup "exponent")
  | .list [c, e] => ofParts? c e
  | _ => none

end Term
end DecimalPoly
