import DecimalPoly.Term.Basic

/-! Polynomials in one variable by their terms with a coefficient other than zero, the highest
exponent first. The form is unique, so equal polynomials are equal values. `add` merges two such
lists in one pass; `ofTerms` brings any list of terms into the form. A text has the terms in order,
joined by signs with a space on each side; a minus in front of the first term has a space after it,
and a plus is left out there. -/
namespace DecimalPoly

def Descending (ts : List Term) : Prop := ts.Pairwise fun s t => t.exponent < s.exponent

structure SparsePoly where
  support : List Term
  descending : Descending support
  nonzero : ∀ t ∈ support, t.coefficient ≠ 0

namespace SparsePoly

theorem ext {p q : SparsePoly} (h : p.support = q.support) : p = q := by
  cases p; cases q; simp_all

instance : DecidableEq SparsePoly := fun p q =>
  if h : p.support = q.support then isTrue (ext h) else isFalse fun e => h (e ▸ rfl)

instance : Zero SparsePoly := ⟨[], .nil, by simp⟩

def isZero (p : SparsePoly) : Bool := p.support.isEmpty

/-- The terms as they are shown: zero has the one term `0·x^0`. -/
def terms (p : SparsePoly) : List Term :=
  if p.support = [] then [Term.constant 0] else p.support

def Canonical (ts : List Term) : Prop :=
  ts = [Term.constant 0] ∨ ts ≠ [] ∧ Descending ts ∧ ∀ t ∈ ts, t.coefficient ≠ 0

instance (ts : List Term) : Decidable (Canonical ts) := by
  unfold Canonical Descending; infer_instance

def leadingTerm (p : SparsePoly) : Term := p.support.headD (Term.constant 0)
def leadingExponent (p : SparsePoly) : Nat := p.leadingTerm.exponent
def leadingCoefficient (p : SparsePoly) : Decimal := p.leadingTerm.coefficient
def length (p : SparsePoly) : Nat := p.terms.length

/-- Zero has no degree. -/
def degree? (p : SparsePoly) : Option Nat := p.support.head?.map Term.exponent

def coefficient (p : SparsePoly) (e : Nat) : Decimal :=
  match p.support.find? (·.exponent = e) with
  | some t => t.coefficient
  | none => 0

/-- The sum of two descending lists. Terms of one exponent become one term or cancel. -/
def merge : List Term → List Term → List Term
  | [], ts => ts
  | ss, [] => ss
  | s :: ss, t :: ts =>
    if t.exponent < s.exponent then s :: merge ss (t :: ts)
    else if s.exponent < t.exponent then t :: merge (s :: ss) ts
    else
      let c := s.coefficient + t.coefficient
      if c = 0 then merge ss ts else { s with coefficient := c } :: merge ss ts
termination_by ss ts => ss.length + ts.length

theorem exponent_of_mem_merge {ss ts : List Term} {u : Term} (h : u ∈ merge ss ts) :
    (∃ s ∈ ss, u.exponent = s.exponent) ∨ ∃ t ∈ ts, u.exponent = t.exponent := by
  fun_induction merge ss ts <;> grind

theorem merge_descending {ss ts : List Term} (hs : Descending ss) (ht : Descending ts) :
    Descending (merge ss ts) := by
  unfold Descending at *
  fun_induction merge ss ts <;> grind [exponent_of_mem_merge, List.pairwise_cons]

theorem merge_nonzero {ss ts : List Term} (hs : ∀ s ∈ ss, s.coefficient ≠ 0)
    (ht : ∀ t ∈ ts, t.coefficient ≠ 0) : ∀ u ∈ merge ss ts, u.coefficient ≠ 0 := by
  fun_induction merge ss ts <;> grind

def add (p q : SparsePoly) : SparsePoly where
  support := merge p.support q.support
  descending := merge_descending p.descending q.descending
  nonzero := merge_nonzero p.nonzero q.nonzero

instance : Add SparsePoly := ⟨add⟩

def ofTerm (t : Term) : SparsePoly :=
  if h : t.coefficient = 0 then 0 else ⟨[t], List.pairwise_singleton .., by simpa using h⟩

/-- Adds `p` to a row of partial sums that is kept as a binary counter is: place `i` is empty or
holds the sum of `2 ^ i` polynomials. -/
def carry (p : SparsePoly) : List (Option SparsePoly) → List (Option SparsePoly)
  | [] => [some p]
  | none :: places => some p :: places
  | some q :: places => none :: carry (q + p) places

def total (places : List (Option SparsePoly)) : SparsePoly :=
  places.foldr (fun place sum => place.getD 0 + sum) 0

def ofTerms (ts : List Term) : SparsePoly :=
  total (ts.foldl (fun places t => carry (ofTerm t) places) [])

def constant (c : Decimal) : SparsePoly := ofTerm (Term.constant c)

instance : One SparsePoly := ⟨constant 1⟩
instance : Inhabited SparsePoly := ⟨0⟩

def isOne (p : SparsePoly) : Bool := p = 1

def neg (p : SparsePoly) : SparsePoly where
  support := p.support.map Term.neg
  descending := by
    simpa [Descending, List.pairwise_map, Term.neg] using p.descending
  nonzero := by
    simp only [List.mem_map]
    rintro _ ⟨t, ht, rfl⟩ h
    exact p.nonzero t ht (Decimal.neg_eq_zero.1 h)

instance : Neg SparsePoly := ⟨neg⟩
instance : Sub SparsePoly := ⟨fun p q => p + -q⟩

def sum (ps : List SparsePoly) : SparsePoly := ps.foldl (· + ·) 0

def evaluate (p : SparsePoly) (x : Decimal) : Decimal :=
  Decimal.sum (p.terms.map (·.evaluate x))

def derivative (p : SparsePoly) : SparsePoly :=
  ofTerms (p.support.filterMap Term.derivative?)

def leadingSign (t : Term) : List Char := if t.coefficient.isNegative then ['-', ' '] else []

def joiningSign (t : Term) : List Char :=
  [' ', if t.coefficient.isNegative then '-' else '+', ' ']

def toChars (p : SparsePoly) : List Char :=
  match p.support with
  | [] => ['0']
  | t :: ts =>
    leadingSign t ++ t.unsignedChars ++ ts.flatMap fun t => joiningSign t ++ t.unsignedChars

def text (p : SparsePoly) : String := String.ofList p.toChars

instance : ToString SparsePoly := ⟨text⟩

def label (p : SparsePoly) : String :=
  "Polynomial \x7b terms: [" ++ String.intercalate ", " (p.terms.map Term.label) ++ "] \x7d"

end SparsePoly
end DecimalPoly
