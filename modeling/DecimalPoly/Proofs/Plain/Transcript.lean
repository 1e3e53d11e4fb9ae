import DecimalPoly.Proofs.Plain.Division
import DecimalPoly.Proofs.Plain.Notation
import DecimalPoly.Proofs.Plain.Noted
import DecimalPoly.Proofs.Session

/-! The records of dividing. The dense loop writes a line for each quotient term when it finds it, and
only then the terms are brought into form. They are in form already: none is zero, none meets another
and they come in descending order, so the lines are the terms of the quotient. -/
namespace DecimalPoly

namespace Plain

theorem Noted.Writes.report {α β γ δ : Type} {x : Noted Halt α} {y : Logged γ} {k : γ → α} {f : α → β}
    {g : γ → δ} {m : δ → β} {us : List (Level × String)}
    (hx : Writes x ((y.outcome.mapError Halt.failure).map k) us)
    (h : ∀ c, f (k c) = m (g c)) :
    Writes (f <$> x) (((g <$> y).outcome.mapError Halt.failure).map m) us := by
  have houtcome : ((g <$> y).outcome.mapError Halt.failure).map m =
      ((y.outcome.mapError Halt.failure).map k).map f := by
    have hmap : (g <$> y).outcome = y.outcome.map g := rfl
    rw [hmap]
    cases y.outcome with
    | error e => rfl
    | ok c => exact congrArg Except.ok (h c).symm
  rw [houtcome]
  exact hx.map f

def Entry.line (t : Entry) : Level × String :=
  (.trace, s!"quotient term {t.coefficient.text}·x^{t.exponent}")

theorem Entry.line_ofTerm (t : Term) : (Entry.ofTerm t).line = (Record.quotientTerm t).line := by
  rw [line, ofTerm, Number.text_ofDecimal]
  rfl

namespace Row
open Noted

/-- The quotient terms with exponents below `n`, each written out when it is found. -/
def notedEliminate (b : Row) (lead : Entry) (precision : Nat) : Nat → Buffer → Noted Halt Row
  | 0, _ => return []
  | n + 1, buffer => do
    let x ← of (buffer.read (lead.exponent + n))
    match x.div? lead.coefficient precision with
    | none => of (.error (.failure .divisionByZero))
    | some c =>
      if c.isZero then notedEliminate b lead precision n buffer
      else do
        let buffer ← of (takeAway b c n buffer)
        note .trace s!"quotient term {c.text}·x^{n}"
        (⟨c, n⟩ :: ·) <$> notedEliminate b lead precision n buffer

def notedQuotient (a b : Row) (precision : Nat) : Noted Halt Row := do
  let lead ← of b.leading
  if lead.coefficient.isZero then of (.error (.failure .divisionByZero))
  else do
    let first ← of a.leading
    note .debug s!"dividing polynomial of degree {first.exponent} by one of degree {lead.exponent}"
    if first.exponent < lead.exponent then return zero
    else do
      let buffer ← of (a.expand first.exponent)
      canonicalize <$>
        notedEliminate b lead precision (first.exponent - lead.exponent + 1) buffer

def notedDivRem (a b : Row) (precision : Nat) : Noted Halt (Row × Row) := do
  let q ← a.notedQuotient b precision
  let m ← of (q.mul b)
  return (q, a.sub m)

theorem line_ofTerms (ts : List Term) :
    (ofTerms ts).map Entry.line = (ts.map Record.quotientTerm).map Record.line := by
  rw [ofTerms, List.map_map, List.map_map]
  exact List.map_congr_left fun t _ => Entry.line_ofTerm t

variable {b : Row} {lead : Entry} {precision n : Nat} {buffer : Buffer} {found : Row}

theorem writes_notedEliminate (h : eliminate b lead precision n buffer = .ok found) :
    Writes (notedEliminate b lead precision n buffer) (.ok found) (found.map Entry.line) := by
  induction n generalizing buffer found with
  | zero =>
    cases h
    exact writes_pure []
  | succ n ih =>
    rw [eliminate] at h
    obtain ⟨x, hread, h⟩ := bind_eq_ok.mp h
    rw [notedEliminate, hread]
    refine (writes_of (.ok x)).bind ?_
    cases hdiv : x.div? lead.coefficient precision with
    | none =>
      rw [hdiv] at h
      cases h
    | some c =>
      simp only [hdiv] at h ⊢
      by_cases hc : c.isZero = true
      · rw [if_pos hc] at h ⊢
        exact ih h
      · rw [if_neg hc] at h ⊢
        obtain ⟨buffer', htake, h⟩ := bind_eq_ok.mp h
        obtain ⟨rest, hrest, h⟩ := bind_eq_ok.mp h
        cases h
        rw [htake]
        exact (writes_of (.ok buffer')).bind ((writes_note _ _).bind ((ih hrest).map _))

theorem writes_notedQuotient (a b : SparsePoly) (precision : Nat) :
    Writes (a.row.notedQuotient b.row precision)
      (((SparsePoly.quotient a b precision).outcome.mapError Halt.failure).map SparsePoly.row)
      ((SparsePoly.quotient a b precision).records.map Record.line) := by
  rw [notedQuotient, leading_row]
  refine (writes_of (.ok (Entry.ofTerm b.leadingTerm))).bind ?_
  by_cases hb : b = 0
  · subst hb
    exact writes_of _
  have hlead : ¬(Entry.ofTerm b.leadingTerm).coefficient.isZero = true :=
    mt (Number.isZero_ofDecimal _).mp (SparsePoly.leadingCoefficient_ne_zero hb)
  rw [if_neg hlead, leading_row]
  obtain ⟨q, hq, hrecords⟩ := SparsePoly.records_quotient a hb precision
  rw [hq, hrecords]
  refine (writes_of (.ok (Entry.ofTerm a.leadingTerm))).bind ((writes_note _ _).bind ?_)
  by_cases hlt : (Entry.ofTerm a.leadingTerm).exponent < (Entry.ofTerm b.leadingTerm).exponent
  · rw [SparsePoly.quotient_eq_zero hb (.inr hlt), Except.ok.injEq] at hq
    subst hq
    rw [if_pos hlt]
    exact writes_pure zero
  · obtain ⟨buffer, hexpand, hfound⟩ := eliminate_ofDivision hb (Nat.le_of_not_lt hlt) precision
    have hexpand' : a.row.expand (Entry.ofTerm a.leadingTerm).exponent = .ok buffer := hexpand
    rw [SparsePoly.outcome_quotient hb, Except.ok.injEq] at hq
    have hsupport : q.support = (LongDivision.ofDivision a b precision).found.reverse := by
      rw [← hq, (LongDivision.invariant_ofDivision a hb precision).support]
    have hrow : canonicalize (ofTerms q.support) = q.row := by
      rw [canonicalize_ofTerms, hsupport, hq]
    have hloop := (writes_notedEliminate hfound).map canonicalize
    rw [← hsupport, line_ofTerms] at hloop
    have hdone : Except.map canonicalize (.ok (ofTerms q.support) : Except Halt Row) = .ok q.row :=
      congrArg Except.ok hrow
    rw [hdone] at hloop
    rw [if_neg hlt, hexpand']
    exact (writes_of (.ok buffer)).bind hloop

theorem writes_notedDivRem (a b : SparsePoly) (precision : Nat) :
    Writes (a.row.notedDivRem b.row precision)
      (((SparsePoly.divRem a b precision).outcome.mapError Halt.failure).map
        (Prod.map SparsePoly.row SparsePoly.row))
      ((SparsePoly.divRem a b precision).records.map Record.line) := by
  have hquotient := writes_notedQuotient a b precision
  by_cases hb : b = 0
  · subst hb
    exact hquotient.bind_error
  obtain ⟨q, r, m, hq, hm, -, hr, hout⟩ := SparsePoly.outcome_divRem a hb precision
  rw [hq] at hquotient
  have hrest : Writes (of (q.row.mul b.row) >>= fun m => pure (q.row, a.row.sub m))
      (.ok (q.row, r.row)) [] := by
    rw [mul_row hm, hr, SparsePoly.row_sub]
    exact (writes_of (.ok m.row)).bind (writes_pure _)
  have hall := hquotient.bind
    (f := fun q => of (q.mul b.row) >>= fun m => pure (q, a.row.sub m)) hrest
  rw [List.append_nil, ← SparsePoly.records_divRem] at hall
  rw [hout]
  exact hall

end Row
end Plain

namespace Wanted
open Plain Noted

def select {α : Type} : Wanted → α × α → List α
  | .quotient, qr => [qr.1]
  | .remainder, qr => [qr.2]
  | .both, qr => [qr.1, qr.2]

def noted (w : Wanted) (a b : Row) (precision : Nat) : Noted Halt (List Row) :=
  match w with
  | .quotient => (fun q => [q]) <$> a.notedQuotient b precision
  | .remainder | .both => w.select <$> a.notedDivRem b precision

section
variable (w : Wanted) (a b : SparsePoly) (precision : Nat)

theorem records_divide :
    (w.divide a b precision).records = (SparsePoly.quotient a b precision).records := by
  cases w with
  | quotient => rfl
  | remainder => exact SparsePoly.records_divRem a b precision
  | both => exact SparsePoly.records_divRem a b precision

theorem writes_noted : Writes (w.noted a.row b.row precision)
    (((w.divide a b precision).outcome.mapError Halt.failure).map (List.map SparsePoly.row))
    ((w.divide a b precision).records.map Record.line) := by
  rw [records_divide]
  have hquotient := Row.writes_notedQuotient a b precision
  have hdivRem := Row.writes_notedDivRem a b precision
  rw [SparsePoly.records_divRem] at hdivRem
  cases w with
  | quotient => exact hquotient.report fun _ => rfl
  | remainder => exact hdivRem.report fun _ => rfl
  | both => exact hdivRem.report fun _ => rfl

end

/-- By zero nothing is recorded. Any other division leaves a debug record with the two leading
exponents and then a trace record for each term of the quotient that it returns, the highest exponent
first, and for the quotient zero no more than the first. The dense loop, which writes a line when it
finds a term, has written the same, with the levels and in the words of these records. -/
theorem division_transcript (w : Wanted) (a b : SparsePoly) (precision : Nat) :
    (b = 0 → (w.divide a b precision).outcome = .error .divisionByZero ∧
      (w.divide a b precision).records = []) ∧
    (b ≠ 0 → ∃ q r, (SparsePoly.divRem a b precision).outcome = .ok (q, r) ∧
      (w.divide a b precision).outcome = .ok (w.select (q, r)) ∧
      (w.divide a b precision).records = .dividing a.leadingExponent b.leadingExponent ::
        (if q = 0 then [] else q.terms).map .quotientTerm ∧
      (w.divide a b precision).records.map Record.level =
        .debug :: (if q = 0 then [] else q.terms).map fun _ => .trace) ∧
    Writes (w.noted a.row b.row precision)
      (((w.divide a b precision).outcome.mapError Halt.failure).map (List.map SparsePoly.row))
      ((w.divide a b precision).records.map Record.line) := by
  refine ⟨fun hb => ?_, fun hb => ?_, writes_noted w a b precision⟩
  · subst hb
    cases w <;> exact ⟨rfl, rfl⟩
  · obtain ⟨q, r, m, hq, -, -, -, hout⟩ := SparsePoly.outcome_divRem a hb precision
    obtain ⟨q', hq', hrecords⟩ := SparsePoly.records_quotient a hb precision
    obtain rfl := Except.ok.inj (hq.symm.trans hq')
    have hterms : (if q = 0 then [] else q.terms) = q.support := by
      by_cases h0 : q = 0
      · rw [if_pos h0, h0]
        rfl
      · rw [if_neg h0, SparsePoly.terms_of_ne_zero h0]
    refine ⟨q, r, hout, ?_, ?_, ?_⟩
    · cases w with
      | quotient => exact Logged.outcome_map hq _
      | remainder => exact Logged.outcome_map hout _
      | both => exact Logged.outcome_map hout _
    · rw [records_divide, hrecords, hterms]
    · rw [records_divide, hrecords, hterms, List.map_cons, List.map_map]
      rfl

/-- A remainder: two rounded terms of the quotient are recorded. -/
theorem division_transcript_thirds :
    let a := SparsePoly.ofTerms [⟨1, 2, by decide⟩, ⟨1, 0, by decide⟩]
    let b := SparsePoly.ofTerms [⟨.ofInt 3, 1, by decide⟩, ⟨1, 0, by decide⟩]
    b ≠ 0 ∧ (remainder.divide a b 2).records.map Record.line =
        [(.debug, "dividing polynomial of degree 2 by one of degree 1"),
          (.trace, "quotient term 0.33·x^1"), (.trace, "quotient term -0.11·x^0")] ∧
      (∃ q r : SparsePoly, (remainder.divide a b 2).outcome = .ok [r] ∧ q.terms.length = 2) ∧
      (remainder.divide b 0 2).records = [] := by
  intro a b
  have hb : b ≠ 0 := by decide +kernel
  have hlines : (remainder.divide a b 2).records.map Record.line =
      [(.debug, "dividing polynomial of degree 2 by one of degree 1"),
        (.trace, "quotient term 0.33·x^1"), (.trace, "quotient term -0.11·x^0")] := by
    decide +kernel
  obtain ⟨q, r, -, hout, hrecords, -⟩ := (division_transcript remainder a b 2).2.1 hb
  have hlength := congrArg List.length hlines
  rw [hrecords] at hlength
  have hq : q ≠ 0 := by
    rintro rfl
    cases hlength
  rw [if_neg hq, List.map_cons, List.map_map, List.length_cons, List.length_map] at hlength
  exact ⟨hb, hlines, ⟨q, r, hout, Nat.succ.inj hlength⟩,
    ((division_transcript remainder b 0 2).1 rfl).2⟩

end Wanted
end DecimalPoly
