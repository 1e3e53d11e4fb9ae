import DecimalPoly.Proofs.Plain.Buffer
import DecimalPoly.Proofs.Plain.Operations
import DecimalPoly.Proofs.SparsePoly.Division

/-! Long division of rows by way of the dense buffer. The buffer holds the coefficients of what is
left of the dividend, cell by cell from the top, so division of polynomials finds the same terms: an
iteration of the loop passes over a cell or takes the step that division takes there. No access
leaves the buffer, no sum of exponents passes the limit and the product behind the remainder exists:
the zero divisor is the only reason not to finish. -/
namespace DecimalPoly.Plain

def Entry.instead (t : Entry) (_ : Number) : Number := t.coefficient

def Entry.lessen (c : Number) (t : Entry) (x : Number) : Number := x.sub (c.mul t.coefficient)

namespace Row

def leading : Row → Except Halt Entry
  | [] => .error (.outOfBounds 0 0)
  | t :: _ => .ok t

def expand (a : Row) (top : Nat) : Except Halt Buffer :=
  Buffer.updateAll Entry.instead 0 a (Array.replicate (top + 1) .zero)

def takeAway (b : Row) (c : Number) (shift : Nat) (buffer : Buffer) : Except Halt Buffer :=
  buffer.updateAll (Entry.lessen c) shift b

/-- The quotient terms with exponents below `n`, for a divisor with the first entry `lead`. -/
def eliminate (b : Row) (lead : Entry) (precision : Nat) : Nat → Buffer → Except Halt Row
  | 0, _ => .ok []
  | n + 1, buffer => do
    let x ← buffer.read (lead.exponent + n)
    match x.div? lead.coefficient precision with
    | none => .error (.failure .divisionByZero)
    | some c =>
      if c.isZero then eliminate b lead precision n buffer
      else
        let found ← eliminate b lead precision n (← takeAway b c n buffer)
        return ⟨c, n⟩ :: found

def quotient (a b : Row) (precision : Nat) : Except Halt Row := do
  let lead ← b.leading
  if lead.coefficient.isZero then .error (.failure .divisionByZero)
  else
    let first ← a.leading
    if first.exponent < lead.exponent then return zero
    else
      let buffer ← a.expand first.exponent
      let found ← eliminate b lead precision (first.exponent - lead.exponent + 1) buffer
      return canonicalize found

def mul (r s : Row) : Except Halt Row := (r.mul? s).mapError fun e => .violation ⟨.product, e⟩

def divRem (a b : Row) (precision : Nat) : Except Halt (Row × Row) := do
  let q ← a.quotient b precision
  let m ← q.mul b
  return (q, a.sub m)

theorem leading_row (p : SparsePoly) : leading p.row = .ok (.ofTerm p.leadingTerm) := by
  by_cases h : p = 0
  · subst h
    rfl
  · rw [SparsePoly.row_of_ne_zero h, SparsePoly.leadingTerm]
    cases hs : p.support with
    | nil => exact absurd hs (SparsePoly.support_ne_nil h)
    | cons t ts => rfl

end Row

namespace Buffer
variable {buffer : Buffer} {top : Nat}

theorem expand_row (a : SparsePoly) : ∃ buffer, a.row.expand a.leadingExponent = .ok buffer ∧
    Holds buffer a.leadingExponent a.coefficient := by
  have hset (t : Term) (x : Decimal) :
      Entry.instead (.ofTerm t) (.ofDecimal x) = .ofDecimal t.coefficient := rfl
  obtain ⟨buffer, g, hall, hb, hin, hout⟩ :=
    (holds_replicate a.leadingExponent).updateAll a.leadingExponent_le hset a.descending_terms
      fun t ht => (Nat.add_zero _).trans_le (SparsePoly.exponent_le_of_mem_terms ht)
  have hg : g = a.coefficient := by
    funext e
    by_cases he : ∃ t ∈ a.terms, t.exponent = e
    · obtain ⟨t, ht, rfl⟩ := he
      rw [SparsePoly.coefficient_of_mem_terms ht]
      exact hin t ht
    · push Not at he
      rw [SparsePoly.coefficient_eq_zero fun t ht => he t (SparsePoly.mem_terms_of_mem_support ht)]
      exact hout e he
  exact ⟨buffer, hall, hg ▸ hb⟩

theorem Holds.takeAway {p b : SparsePoly} (hb : Holds buffer top p.coefficient) (hb0 : b ≠ 0)
    (q : Term) (hfit : q.exponent + b.leadingExponent ≤ top) (htop : top ≤ maxExponent) :
    ∃ buffer', Row.takeAway b.row (.ofDecimal q.coefficient) q.exponent buffer = .ok buffer' ∧
      Holds buffer' top (p - b.mulTerm q).coefficient := by
  have hsub (t : Term) (x : Decimal) : Entry.lessen (.ofDecimal q.coefficient)
      (.ofTerm t) (.ofDecimal x) = .ofDecimal (x - q.coefficient * t.coefficient) := by
    rw [Entry.lessen, Entry.ofTerm, Number.mul_ofDecimal, Number.sub_ofDecimal]
  have hcells (t : Term) (ht : t ∈ b.support) : t.exponent + q.exponent ≤ top := by
    have := SparsePoly.exponent_le_leadingExponent ht
    omega
  obtain ⟨buffer', g, hall, hholds, hin, hout⟩ := hb.updateAll htop hsub b.descending hcells
  have hmax := hfit.trans htop
  have hg : g = (p - b.mulTerm q).coefficient := by
    funext i
    rw [SparsePoly.coefficient_sub]
    by_cases hi : ∃ t ∈ b.support, t.exponent + q.exponent = i
    · obtain ⟨t, ht, rfl⟩ := hi
      rw [hin t ht, SparsePoly.coefficient_mulTerm hmax, SparsePoly.coefficient_of_mem ht]
    · push Not at hi
      rw [hout i hi, SparsePoly.coefficient_mulTerm_eq_zero hmax hi, Decimal.sub_zero]
  refine ⟨buffer', ?_, hg ▸ hholds⟩
  rw [Row.takeAway, SparsePoly.row_of_ne_zero hb0]
  exact hall

end Buffer

/-- The loop between two iterations: the buffer and the quotient terms that were pushed. -/
structure Elimination where
  buffer : Buffer
  pushed : Row
deriving DecidableEq

namespace Elimination
open Row

section Loop
variable (b : Row) (lead : Entry) (precision : Nat)

def step (n : Nat) (s : Elimination) : Except Halt Elimination := do
  let x ← s.buffer.read (lead.exponent + n)
  match x.div? lead.coefficient precision with
  | none => .error (.failure .divisionByZero)
  | some c =>
    if c.isZero then return s
    else return ⟨← takeAway b c n s.buffer, s.pushed ++ [⟨c, n⟩]⟩

def iterate (n : Nat) : Nat → Elimination → Except Halt Elimination
  | 0, s => .ok s
  | k + 1, s => do step b lead precision (n - (k + 1)) (← iterate n k s)

end Loop

section
variable {b : Row} {lead : Entry} {precision n k : Nat} {s s' : Elimination}

theorem step_eq {x c : Number} (hread : s.buffer.read (lead.exponent + n) = .ok x)
    (hdiv : x.div? lead.coefficient precision = some c) : step b lead precision n s =
      if c.isZero then .ok s
      else (takeAway b c n s.buffer).map fun buffer => ⟨buffer, s.pushed ++ [⟨c, n⟩]⟩ := by
  rw [step, hread]
  change (match x.div? lead.coefficient precision with
    | none => _
    | some c => _) = _
  rw [hdiv]
  by_cases hc : c.isZero = true
  · simp only [if_pos hc]
    rfl
  · simp only [if_neg hc]
    cases takeAway b c n s.buffer <;> rfl

theorem eliminate_of_step (h : step b lead precision n s = .ok s') :
    (s.pushed ++ ·) <$> eliminate b lead precision (n + 1) s.buffer =
      (s'.pushed ++ ·) <$> eliminate b lead precision n s'.buffer := by
  obtain ⟨x, hread, h⟩ := bind_eq_ok.mp h
  rw [eliminate, hread]
  change _ <$> (match x.div? lead.coefficient precision with
    | none => _
    | some c => _) = _
  cases hdiv : x.div? lead.coefficient precision with
  | none =>
    rw [hdiv] at h
    cases h
  | some c =>
    simp only [hdiv] at h ⊢
    by_cases hc : c.isZero = true
    · rw [if_pos hc] at h ⊢
      cases h
      rfl
    · rw [if_neg hc] at h ⊢
      obtain ⟨buffer, htake, h⟩ := bind_eq_ok.mp h
      cases h
      rw [htake]
      change _ <$> (eliminate b lead precision n buffer >>= fun found => pure (⟨c, n⟩ :: found)) = _
      cases eliminate b lead precision n buffer with
      | error e => rfl
      | ok found => exact congrArg Except.ok (List.append_cons ..)

theorem eliminate_of_iterate (hk : k ≤ n) (h : iterate b lead precision n k s = .ok s') :
    (s.pushed ++ ·) <$> eliminate b lead precision n s.buffer =
      (s'.pushed ++ ·) <$> eliminate b lead precision (n - k) s'.buffer := by
  induction k generalizing s' with
  | zero =>
    cases h
    rfl
  | succ k ih =>
    obtain ⟨between, hbetween, hstep⟩ := bind_eq_ok.mp h
    rw [ih (by omega) hbetween, ← eliminate_of_step hstep]
    congr 2
    omega

end

/-- The loop with `n` exponents to go is at the division `d`. -/
structure Follows (a b : SparsePoly) (precision n : Nat) (s : Elimination) (d : LongDivision) :
    Prop where
  invariant : d.Invariant a b (b.leadingExponent + n)
  holds : s.buffer.Holds a.leadingExponent d.left.coefficient
  pushed : s.pushed = ofTerms d.found.reverse
  rest : d.run b precision (b.leadingExponent + n) = LongDivision.ofDivision a b precision

section
variable {a b : SparsePoly} {precision n k : Nat} {s : Elimination} {d : LongDivision}

theorem follows_start {buffer : Buffer} (h : buffer.Holds a.leadingExponent a.coefficient)
    (hn : b.leadingExponent + n = a.leadingExponent + 1) :
    Follows a b precision n ⟨buffer, []⟩ ⟨[], a⟩ where
  invariant := .start a b _
  holds := h
  pushed := rfl
  rest := by rw [hn, LongDivision.ofDivision]

theorem Follows.skip (h : Follows a b precision (n + 1) s d)
    (hz : d.left.coefficient (b.leadingExponent + n) = 0) : Follows a b precision n s d where
  invariant := h.invariant.mono (by omega)
  holds := h.holds
  pushed := h.pushed
  rest := by
    rw [← h.rest, ← Nat.add_assoc, LongDivision.run_of_coefficient_eq_zero hz]

theorem Follows.take {t : Term} (hb : b ≠ 0) (h : Follows a b precision (n + 1) s d)
    (ht : t ∈ d.left.support) (he : t.exponent = b.leadingExponent + n) :
    let c := Number.ofDecimal (t.coefficient.div b.leadingCoefficient precision)
    ∃ buffer, takeAway b.row c n s.buffer = .ok buffer ∧
      Follows a b precision n ⟨buffer, s.pushed ++ [⟨c, n⟩]⟩ (d.step b precision t) := by
  intro c
  have htop := h.invariant.exponent_le ht
  have hshift : (LongDivision.quotientTerm b precision t).exponent = n :=
    Nat.sub_eq_of_eq_add' he
  have hfit : (LongDivision.quotientTerm b precision t).exponent + b.leadingExponent ≤
      a.leadingExponent := by omega
  obtain ⟨buffer, htake, hholds⟩ := h.holds.takeAway hb _ hfit a.leadingExponent_le
  rw [hshift] at htake
  refine ⟨buffer, htake, h.invariant.step_of_mem hb precision ht he, hholds, ?_, ?_⟩
  · rw [h.pushed, LongDivision.step, List.reverse_cons, ofTerms_concat, Entry.ofTerm, hshift]
    rfl
  · rw [← h.rest, LongDivision.run_succ_of_mem ht he]

theorem Follows.step (hb : b ≠ 0) (h : Follows a b precision (n + 1) s d)
    (hn : b.leadingExponent + n ≤ a.leadingExponent) :
    ∃ s' d', step b.row (.ofTerm b.leadingTerm) precision n s = .ok s' ∧
      Follows a b precision n s' d' := by
  have hlead := SparsePoly.leadingCoefficient_ne_zero hb
  have hzero (x : Decimal) :
      (Number.ofDecimal (x.div b.leadingCoefficient precision)).isZero = true ↔ x = 0 :=
    (Number.isZero_ofDecimal _).trans (Decimal.div_eq_zero_iff hlead precision)
  have hstep {x : Decimal} (hx : d.left.coefficient (b.leadingExponent + n) = x) :
      Elimination.step b.row (.ofTerm b.leadingTerm) precision n s = _ :=
    step_eq (hx ▸ h.holds.read hn) (Number.div?_eq_some hlead precision)
  by_cases hz : d.left.coefficient (b.leadingExponent + n) = 0
  · exact ⟨s, d, (hstep hz).trans (if_pos ((hzero 0).mpr rfl)), h.skip hz⟩
  · obtain ⟨t, ht, he⟩ := SparsePoly.coefficient_ne_zero_iff.mp hz
    have hx : d.left.coefficient (b.leadingExponent + n) = t.coefficient := by
      rw [← he, SparsePoly.coefficient_of_mem ht]
    rw [hx] at hz
    obtain ⟨buffer, htake, hfollows⟩ := h.take hb ht he
    refine ⟨_, _, ?_, hfollows⟩
    rw [hstep hx, if_neg (mt (hzero _).mp hz), htake]
    rfl

theorem Follows.iterate (hb : b ≠ 0) (h : Follows a b precision n s d)
    (hn : b.leadingExponent + n ≤ a.leadingExponent + 1) (hk : k ≤ n) :
    ∃ s' d', iterate b.row (.ofTerm b.leadingTerm) precision n k s = .ok s' ∧
      Follows a b precision (n - k) s' d' := by
  induction k with
  | zero => exact ⟨s, d, rfl, h⟩
  | succ k ih =>
    obtain ⟨s₁, d₁, hiterate, hfollows⟩ := ih (by omega)
    have hopen : n - k = n - (k + 1) + 1 := by omega
    rw [hopen] at hfollows
    obtain ⟨s₂, d₂, hstep, hfollows⟩ := hfollows.step hb (by omega)
    exact ⟨s₂, d₂, bind_eq_ok.mpr ⟨s₁, hiterate, hstep⟩, hfollows⟩

theorem Follows.finish (h : Follows a b precision 0 s d) :
    d = LongDivision.ofDivision a b precision := by
  rw [← h.rest, LongDivision.run_of_le (Nat.add_zero _).le]

theorem follows_iterate (hb : b ≠ 0) (hle : b.leadingExponent ≤ a.leadingExponent)
    (precision : Nat) {buffer : Buffer} (h : buffer.Holds a.leadingExponent a.coefficient)
    (hk : k ≤ a.leadingExponent - b.leadingExponent + 1) :
    ∃ s d, iterate b.row (.ofTerm b.leadingTerm) precision
        (a.leadingExponent - b.leadingExponent + 1) k ⟨buffer, []⟩ = .ok s ∧
      Follows a b precision (a.leadingExponent - b.leadingExponent + 1 - k) s d :=
  (follows_start h (by omega)).iterate hb (by omega) hk

end

end Elimination

namespace Row
variable {a b : SparsePoly}

theorem eliminate_ofDivision (hb : b ≠ 0) (hle : b.leadingExponent ≤ a.leadingExponent)
    (precision : Nat) : ∃ buffer, expand a.row a.leadingExponent = .ok buffer ∧
      eliminate b.row (.ofTerm b.leadingTerm) precision
          (a.leadingExponent - b.leadingExponent + 1) buffer =
        .ok (ofTerms (LongDivision.ofDivision a b precision).found.reverse) := by
  obtain ⟨buffer, hexpand, hholds⟩ := Buffer.expand_row a
  obtain ⟨s, d, hiterate, hfollows⟩ :=
    Elimination.follows_iterate hb hle precision hholds le_rfl
  have hloop := Elimination.eliminate_of_iterate le_rfl hiterate
  rw [Nat.sub_self] at hfollows hloop
  refine ⟨buffer, hexpand, ?_⟩
  rw [← hfollows.finish, ← hfollows.pushed]
  obtain ⟨found, hfound, happend⟩ := map_eq_ok.mp hloop
  rw [hfound]
  exact congrArg Except.ok (happend.symm.trans (List.append_nil _))

theorem quotient_row (a b : SparsePoly) (precision : Nat) : a.row.quotient b.row precision =
    ((SparsePoly.quotient a b precision).outcome.mapError Halt.failure).map SparsePoly.row := by
  rw [quotient, leading_row]
  change (if (Number.ofDecimal b.leadingCoefficient).isZero = true then _ else
    (leading a.row >>= _)) = _
  by_cases hb : b = 0
  · subst hb
    rfl
  rw [if_neg (mt (Number.isZero_ofDecimal _).mp (SparsePoly.leadingCoefficient_ne_zero hb)),
    leading_row]
  change (if a.leadingExponent < b.leadingExponent then _ else
    (expand a.row a.leadingExponent >>= _)) = _
  by_cases hlt : a.leadingExponent < b.leadingExponent
  · rw [if_pos hlt, SparsePoly.quotient_eq_zero hb (.inr hlt)]
    rfl
  obtain ⟨buffer, hexpand, hfound⟩ := eliminate_ofDivision hb (Nat.le_of_not_lt hlt) precision
  rw [if_neg hlt, hexpand]
  change (eliminate b.row (.ofTerm b.leadingTerm) precision
    (a.leadingExponent - b.leadingExponent + 1) buffer >>= _) = _
  rw [hfound, SparsePoly.outcome_quotient hb]
  exact congrArg Except.ok (canonicalize_ofTerms _)

theorem mul_row {p q m : SparsePoly} (h : p.mul? q = .ok m) : p.row.mul q.row = .ok m.row := by
  rw [mul, SparsePoly.row_mul?, h]
  rfl

theorem divRem_row (a b : SparsePoly) (precision : Nat) : a.row.divRem b.row precision =
    ((SparsePoly.divRem a b precision).outcome.mapError Halt.failure).map
      (Prod.map SparsePoly.row SparsePoly.row) := by
  rw [divRem, quotient_row]
  by_cases hb : b = 0
  · subst hb
    rfl
  obtain ⟨q, r, m, hq, hm, -, hr, hout⟩ := SparsePoly.outcome_divRem a hb precision
  rw [hq, hout]
  change (q.row.mul b.row >>= _) = _
  rw [mul_row hm, hr]
  exact congrArg (fun r => Except.ok (q.row, r)) (SparsePoly.row_sub a m).symm

end Row

end DecimalPoly.Plain

namespace DecimalPoly.SparsePoly
open Plain

/-- The law of long division. The zero divisor alone is refused. Any other divisor gives a quotient
and a remainder that make up the dividend exactly, whatever was rounded, and the product in between
exists; the dense buffer leads to the same two. -/
theorem divRem_law (a b : SparsePoly) (precision : Nat) :
    (∀ e, (divRem a b precision).outcome = .error e ↔ b = 0 ∧ e = .divisionByZero) ∧
    (b = 0 → a.row.divRem b.row precision = .error (.failure .divisionByZero)) ∧
    (b ≠ 0 → ∃ q r m, (divRem a b precision).outcome = .ok (q, r) ∧
      a.row.divRem b.row precision = .ok (q.row, r.row) ∧
      q.mul? b = .ok m ∧ a = m + r ∧
      (a = 0 ∨ a.leadingExponent < b.leadingExponent → q = 0 ∧ r = a) ∧
      (a ≠ 0 → b.leadingExponent ≤ a.leadingExponent →
        q.degree? = some (a.leadingExponent - b.leadingExponent))) := by
  refine ⟨fun e => ?_, ?_, fun hb => ?_⟩
  · by_cases hb : b = 0
    · subst hb
      simp [outcome_divRem_zero, eq_comm]
    · obtain ⟨q, r, m, -, -, -, -, hout⟩ := outcome_divRem a hb precision
      rw [hout]
      simp [hb]
  · rintro rfl
    exact Row.divRem_row a 0 precision
  · obtain ⟨q, r, m, hq, hm, hsum, hr, hout⟩ := outcome_divRem a hb precision
    have hdense := Row.divRem_row a b precision
    rw [hout] at hdense
    refine ⟨q, r, m, hout, hdense, hm, hsum.symm, fun hlt => ?_, fun ha hle => ?_⟩
    · rw [quotient_eq_zero hb hlt, Except.ok.injEq] at hq
      subst hq
      have hm0 : m = 0 := by
        have hz : (0 : SparsePoly).mul? b = .ok 0 := rfl
        rw [hz, Except.ok.injEq] at hm
        exact hm.symm
      refine ⟨rfl, ?_⟩
      apply value_injective
      rw [← hsum, hm0, value_add, value_zero, zero_add]
    · exact degree?_quotient ha hb hle hq

/-- The dividend of the highest degree there is, by a divisor with coefficients to be rounded. -/
theorem divRem_law_at_limit :
    let a := ofTerm ⟨1, maxExponent, le_rfl⟩
    let b : SparsePoly := ⟨[⟨.ofInt 3, 1, by decide⟩, ⟨1, 0, by decide⟩],
      by simp [Descending], by decide⟩
    b ≠ 0 ∧ a ≠ 0 ∧ b.leadingExponent ≤ a.leadingExponent ∧
      ∃ q r m, (divRem a b 28).outcome = .ok (q, r) ∧
        a.row.divRem b.row 28 = .ok (q.row, r.row) ∧ q.mul? b = .ok m ∧ a = m + r ∧
        q.degree? = some 4294967294 := by
  intro a b
  have hb : b ≠ 0 := by decide
  have ha : a ≠ 0 := by decide
  have hle : b.leadingExponent ≤ a.leadingExponent := by decide
  obtain ⟨q, r, m, hout, hdense, hm, hsum, -, hdeg⟩ := (divRem_law a b 28).2.2 hb
  exact ⟨hb, ha, hle, q, r, m, hout, hdense, hm, hsum, hdeg ha hle⟩

end DecimalPoly.SparsePoly
