import DecimalPoly.SparsePoly.Basic
import DecimalPoly.Intake
import DecimalPoly.Journal

/-! Reading polynomials from text. Signs cut a text into segments, and each segment that is not
blank is one term: a coefficient of digits and points, then `x` and `^` in any number and the digits
and points of the exponent among them. Spaces mean nothing. A segment is judged at the sign that
ends it, the last one at the end of the text, and a character with no place in a term at once. -/
namespace DecimalPoly.Reader

inductive Sign where
  | plus
  | minus
deriving DecidableEq

def Sign.ofChar? : Char → Option Sign
  | '+' => some .plus
  | '-' => some .minus
  | _ => none

def Sign.toChar : Sign → Char
  | .plus => '+'
  | .minus => '-'

def Sign.apply : Sign → Decimal → Decimal
  | .plus, d => d
  | .minus, d => -d

def isNumeral (c : Char) : Bool := c.isDigit || c = '.'
def isMarker (c : Char) : Bool := c = 'x' || c = '^'
def isBlank (c : Char) : Bool := c = ' '

def splitAtSigns : List Char → List Char × List (Sign × List Char)
  | [] => ([], [])
  | c :: cs =>
    let (head, rest) := splitAtSigns cs
    match Sign.ofChar? c with
    | some s => ([], (s, head) :: rest)
    | none => (c :: head, rest)

/-- The first character of a segment with no place in a term, and its offset in bytes. -/
def firstForeign? (offset : Nat) : List Char → Option (Char × Nat)
  | [] => none
  | c :: cs =>
    if isNumeral c || isMarker c || isBlank c then firstForeign? (offset + c.utf8Size) cs
    else some (c, offset)

def readMagnitude (digits : List Char) : Except Failure Decimal :=
  if digits = [] then .ok 1 else Decimal.read (String.ofList digits)

/-- An exponent that is not written is 1 after a marker and else 0. -/
def readExponent (coefficient : Decimal) (marked : Bool) (digits : List Char) :
    Except Failure Exponent :=
  if digits = [] then .ok (if marked then ⟨1, by decide⟩ else ⟨0, by decide⟩)
  else
    let exponent := Decimal.read (String.ofList digits) >>= Decimal.toExponent
    exponent.mapError fun _ => .invalidTerm coefficient.text (String.ofList digits)

def readTerm (sign : Sign) (segment : List Char) : Except Failure Term := do
  let rest := segment.dropWhile isNumeral
  let magnitude ← readMagnitude (segment.takeWhile isNumeral)
  let coefficient := sign.apply magnitude
  let exponent ← readExponent coefficient (!rest.isEmpty) (rest.filter isNumeral)
  return Term.ofExponent coefficient exponent

def readSegment (offset : Nat) (sign : Sign) (segment : List Char) : Logged (Option Term) :=
  match firstForeign? offset segment with
  | some (c, n) => Logged.fail (.invalidCharacter c n)
  | none =>
    match segment.filter (fun c => !isBlank c) with
    | [] => pure none
    | written => do
      let t ← Logged.ofExcept (readTerm sign written)
      Logged.note (.parsedTerm t)
      return some t

def width : List Char → Nat
  | [] => 0
  | c :: cs => c.utf8Size + width cs

/-- The terms of a segment and of those after it; `offset` is where it starts. A sign that nothing
follows is out of place. -/
def readSegments (offset : Nat) (sign : Option Sign) (segment : List Char) :
    List (Sign × List Char) → Logged (List Term)
  | [] => do
    let last ← readSegment offset (sign.getD .plus) segment
    match last, sign with
    | none, some s => Logged.fail (.invalidCharacter s.toChar (offset - 1))
    | none, none => return []
    | some t, _ => return [t]
  | (next, following) :: rest => do
    let first ← readSegment offset (sign.getD .plus) segment
    (first.toList ++ ·) <$> readSegments (offset + width segment + 1) (some next) following rest

/-- The terms of a text as they are written, neither merged nor sorted. -/
def readTerms (text : String) : Logged (List Term) := do
  let (head, rest) := splitAtSigns text.toList
  let ts ← readSegments 0 none head rest
  Logged.note (.parsedText ts.length text)
  return ts

end DecimalPoly.Reader

namespace DecimalPoly

def SparsePoly.read (text : String) : Logged SparsePoly := ofTerms <$> Reader.readTerms text

end DecimalPoly
