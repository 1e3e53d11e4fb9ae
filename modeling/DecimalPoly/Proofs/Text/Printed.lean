import DecimalPoly.Proofs.Plain.Display
import DecimalPoly.Proofs.Text.RoundTrip
import DecimalPoly.Proofs.Text.Terse

/-! The texts that polynomials are written as. They are described by their characters alone: chunks for
terms with falling exponents, a sign between any two and at most a minus in front. Every such text is
that of a polynomial, and reading gives the polynomial back, so the others are those that change when
they are read and written. -/
namespace DecimalPoly

namespace Grammar
open Reader SparsePoly

/-- A number other than zero, without a sign and without a spare character. -/
structure IsFactor (cs : List Char) : Prop where
  terse : IsTerse cs
  nonzero : numeralValue cs ≠ 0

structure IsExponent (ds : List Char) (e : Nat) : Prop where
  whole : IsWhole ds
  value : Nat.ofDigitChars 10 ds 0 = e
  two_le : 2 ≤ e
  exponent_le : e ≤ maxExponent

/-- A term without its sign, and its exponent. -/
inductive Chunk : List Char → Nat → Prop where
  | constant {m : List Char} (factor : IsFactor m) : Chunk m 0
  | bare : Chunk ['x'] 1
  | linear {m : List Char} (factor : IsFactor m) (other : m ≠ ['1']) : Chunk (m ++ ['x']) 1
  | power {ds : List Char} {e : Nat} (exponent : IsExponent ds e) : Chunk ('x' :: '^' :: ds) e
  | monomial {m ds : List Char} {e : Nat} (factor : IsFactor m) (other : m ≠ ['1'])
      (exponent : IsExponent ds e) : Chunk (m ++ 'x' :: '^' :: ds) e

/-- The chunks behind one with the exponent `n`. -/
inductive Tail : Nat → List Char → Prop where
  | nil {n : Nat} : Tail n []
  | cons {n e : Nat} {cs rest : List Char} (sign : Sign) (chunk : Chunk cs e) (lower : e < n)
      (tail : Tail e rest) : Tail n (' ' :: sign.toChar :: ' ' :: (cs ++ rest))

inductive Printed : List Char → Prop where
  | zero : Printed ['0']
  | plain {e : Nat} {cs rest : List Char} (chunk : Chunk cs e) (tail : Tail e rest) :
      Printed (cs ++ rest)
  | negated {e : Nat} {cs rest : List Char} (chunk : Chunk cs e) (tail : Tail e rest) :
      Printed ('-' :: ' ' :: (cs ++ rest))

section Chunks
variable {cs m ds : List Char} {e n : Nat} {g : Sign} {t : Term}

theorem isExponent_iff : IsExponent ds e ↔ ds = Nat.toDigits 10 e ∧ 2 ≤ e ∧ e ≤ maxExponent := by
  constructor
  · intro h
    refine ⟨?_, h.two_le, h.exponent_le⟩
    rw [← h.value, h.whole.toDigits]
  · intro h
    obtain ⟨rfl, htwo, hle⟩ := h
    exact ⟨isWhole_toDigits e, Nat.ofDigitChars_ten_toDigits, htwo, hle⟩

theorem isFactor_iff : IsFactor m ↔ ∃ d : Decimal, d ≠ 0 ∧ d.unsignedChars = m := by
  constructor
  · intro h
    have hchars : ∀ c ∈ m, isNumeral c = true :=
      fun c hc => isNumeral_iff.mpr (h.terse.characters c hc)
    obtain ⟨d, hd⟩ := exists_toRat_eq hchars
    refine ⟨d, ?_, h.terse.unsignedChars hd⟩
    rintro rfl
    exact h.nonzero (hd.symm.trans Decimal.toRat_zero)
  · intro h
    obtain ⟨d, hd, rfl⟩ := h
    refine ⟨isTerse_unsignedChars d, ?_⟩
    rwa [numeralValue_unsignedChars, Decimal.toRat_abs, ne_eq, abs_eq_zero, Decimal.toRat_eq_zero]

theorem unsignedChars_eq_one {d : Decimal} : d.unsignedChars = ['1'] ↔ d.abs = 1 := by
  have hone : (1 : Decimal).unsignedChars = ['1'] := by decide
  constructor
  · intro h
    rw [← Decimal.toRat_inj, ← numeralValue_unsignedChars, h, ← hone, numeralValue_unsignedChars]
    rfl
  · intro h
    rw [← unsignedChars_abs, h, hone]

theorem IsExponent.powerChars (h : IsExponent ds e) : powerChars e = 'x' :: '^' :: ds := by
  obtain ⟨rfl, htwo, -⟩ := isExponent_iff.mp h
  obtain ⟨k, rfl⟩ := Nat.exists_eq_add_of_le htwo
  rw [Nat.add_comm]
  rfl

theorem chunk_iff : Chunk cs e ↔ e ≤ maxExponent ∧
    ∃ m, IsFactor m ∧ cs = (if m = ['1'] ∧ e ≠ 0 then [] else m) ++ powerChars e := by
  have hunit : IsFactor ['1'] := isFactor_iff.mpr ⟨1, by decide, by decide⟩
  constructor
  · intro h
    cases h with
    | constant factor => exact ⟨Nat.zero_le _, cs, factor, by simp [powerChars]⟩
    | bare => exact ⟨by decide, ['1'], hunit, rfl⟩
    | linear factor other => exact ⟨by decide, _, factor, by simp [powerChars, other]⟩
    | power exponent =>
      have hne : e ≠ 0 := Nat.ne_zero_of_lt exponent.two_le
      exact ⟨exponent.exponent_le, ['1'], hunit, by simp [exponent.powerChars, hne]⟩
    | monomial factor other exponent =>
      exact ⟨exponent.exponent_le, _, factor, by simp [exponent.powerChars, other]⟩
  · intro h
    obtain ⟨hle, m, factor, rfl⟩ := h
    by_cases hzero : e = 0
    · subst hzero
      simpa [powerChars] using Chunk.constant factor
    by_cases hone : e = 1
    · subst hone
      by_cases hm : m = ['1']
      · simpa [hm, powerChars] using Chunk.bare
      · simpa [hm, powerChars] using Chunk.linear factor hm
    have exponent : IsExponent (Nat.toDigits 10 e) e := isExponent_iff.mpr ⟨rfl, by omega, hle⟩
    rw [exponent.powerChars]
    by_cases hm : m = ['1']
    · simpa [hm, hzero] using Chunk.power exponent
    · simpa [hm] using Chunk.monomial factor hm exponent

theorem factorChars_eq (t : Term) : factorChars t =
    if t.coefficient.unsignedChars = ['1'] ∧ t.exponent ≠ 0 then []
    else t.coefficient.unsignedChars := by
  rw [factorChars]
  simp only [unsignedChars_eq_one]

theorem chunk_unsignedChars (h : t.coefficient ≠ 0) : Chunk t.unsignedChars t.exponent := by
  rw [chunk_iff, unsignedChars_eq, factorChars_eq]
  exact ⟨t.exponent_le, _, isFactor_iff.mpr ⟨t.coefficient, h, rfl⟩, rfl⟩

theorem abs_pos_of_ne_zero {d : Decimal} (h : d ≠ 0) : 0 < d.abs.toRat := by
  rw [Decimal.toRat_abs, abs_pos]
  exact mt Decimal.toRat_eq_zero.mp h

theorem apply_abs_ne_zero {d : Decimal} (h : d ≠ 0) (g : Sign) : g.apply d.abs ≠ 0 := by
  have habs : d.abs ≠ 0 := mt Decimal.toRat_eq_zero.mpr (abs_pos_of_ne_zero h).ne'
  cases g with
  | plus => exact habs
  | minus => exact mt Decimal.neg_eq_zero.mp habs

theorem signOf_apply_abs {d : Decimal} (h : d ≠ 0) (g : Sign) (he : e ≤ maxExponent) :
    signOf ⟨g.apply d.abs, e, he⟩ = g := by
  have hpos := abs_pos_of_ne_zero h
  rw [signOf]
  cases g with
  | plus => exact if_neg (mt Decimal.isNegative_iff.mp hpos.not_gt)
  | minus =>
    refine if_pos (Decimal.isNegative_iff.mpr ?_)
    change (-d.abs).toRat < 0
    rwa [Decimal.toRat_neg, neg_lt_zero]

theorem unsignedChars_apply (g : Sign) (d : Decimal) : (g.apply d).unsignedChars = d.unsignedChars := by
  cases g with
  | plus => rfl
  | minus => exact unsignedChars_neg d

theorem Chunk.exists_term (h : Chunk cs e) (g : Sign) :
    ∃ t : Term, t.coefficient ≠ 0 ∧ signOf t = g ∧ t.exponent = e ∧ t.unsignedChars = cs := by
  obtain ⟨hle, m, factor, rfl⟩ := chunk_iff.mp h
  obtain ⟨d, hd, rfl⟩ := isFactor_iff.mp factor
  have hchars : (g.apply d.abs).unsignedChars = d.unsignedChars := by
    rw [unsignedChars_apply, unsignedChars_abs]
  refine ⟨⟨g.apply d.abs, e, hle⟩, apply_abs_ne_zero hd g, signOf_apply_abs hd g hle, rfl, ?_⟩
  rw [unsignedChars_eq, factorChars_eq, hchars]

end Chunks

section Texts
variable {cs : List Char} {n : Nat}

theorem joiningSign_eq (t : Term) : joiningSign t = [' ', (signOf t).toChar, ' '] := by
  rw [joiningSign, signOf]
  cases t.coefficient.isNegative with
  | false => rfl
  | true => rfl

theorem tail_iff : Tail n cs ↔ ∃ ts : List Term, (∀ t ∈ ts, t.exponent < n) ∧ Descending ts ∧
    (∀ t ∈ ts, t.coefficient ≠ 0) ∧
    (ts.flatMap fun t => joiningSign t ++ t.unsignedChars) = cs := by
  constructor
  · intro h
    induction h with
    | nil => exact ⟨[], by simp, .nil, by simp, rfl⟩
    | cons sign chunk lower tail ih =>
      obtain ⟨ts, hlow, hdescending, hnonzero, rfl⟩ := ih
      obtain ⟨t, ht, rfl, rfl, rfl⟩ := chunk.exists_term sign
      refine ⟨t :: ts, ?_, List.pairwise_cons.mpr ⟨hlow, hdescending⟩,
        List.forall_mem_cons.mpr ⟨ht, hnonzero⟩, ?_⟩
      · exact List.forall_mem_cons.mpr ⟨lower, fun u hu => (hlow u hu).trans lower⟩
      · rw [List.flatMap_cons, joiningSign_eq, List.append_assoc]
        rfl
  · intro h
    obtain ⟨ts, hlow, hdescending, hnonzero, rfl⟩ := h
    induction ts generalizing n with
    | nil => exact .nil
    | cons t ts ih =>
      obtain ⟨hlower, hdescending⟩ := List.pairwise_cons.mp hdescending
      obtain ⟨ht, hnonzero⟩ := List.forall_mem_cons.mp hnonzero
      have htail := ih hlower hdescending hnonzero
      have hjoined := Tail.cons (signOf t) (chunk_unsignedChars ht) (hlow t List.mem_cons_self) htail
      rwa [List.flatMap_cons, joiningSign_eq, List.append_assoc]

theorem exists_toChars {g : Sign} {e : Nat} {c rest : List Char} (chunk : Chunk c e)
    (tail : Tail e rest) :
    ∃ p : SparsePoly, p.toChars = (if g = .minus then ['-', ' '] else []) ++ (c ++ rest) := by
  obtain ⟨t, ht, rfl, rfl, rfl⟩ := chunk.exists_term g
  obtain ⟨ts, hlow, hdescending, hnonzero, rfl⟩ := tail_iff.mp tail
  refine ⟨⟨t :: ts, List.pairwise_cons.mpr ⟨hlow, hdescending⟩,
    List.forall_mem_cons.mpr ⟨ht, hnonzero⟩⟩, ?_⟩
  have hlead : leadingSign t = if signOf t = .minus then ['-', ' '] else [] := by
    rw [leadingSign, signOf]
    cases t.coefficient.isNegative with
    | false => rfl
    | true => rfl
  rw [← hlead, ← List.append_assoc]
  rfl

theorem printed_toChars (p : SparsePoly) : Printed p.toChars := by
  rw [toChars]
  obtain ⟨ts, hdescending, hnonzero⟩ := p
  cases ts with
  | nil => exact .zero
  | cons t ts =>
    obtain ⟨hlow, hdescending⟩ := List.pairwise_cons.mp hdescending
    obtain ⟨ht, hnonzero⟩ := List.forall_mem_cons.mp hnonzero
    have chunk := chunk_unsignedChars ht
    have tail := tail_iff.mpr ⟨ts, hlow, hdescending, hnonzero, rfl⟩
    have hplain := Printed.plain chunk tail
    have hnegated := Printed.negated chunk tail
    dsimp only
    rw [leadingSign, List.append_assoc]
    split
    · exact hnegated
    · exact hplain

theorem printed_iff : Printed cs ↔ ∃ p : SparsePoly, p.toChars = cs := by
  constructor
  · intro h
    cases h with
    | zero => exact ⟨0, rfl⟩
    | plain chunk tail => exact exists_toChars chunk tail (g := .plus)
    | negated chunk tail => exact exists_toChars chunk tail (g := .minus)
  · intro h
    obtain ⟨p, rfl⟩ := h
    exact printed_toChars p

end Texts

end Grammar

namespace SparsePoly
open Grammar

theorem read_eq_ok_iff {text : String} {p q : SparsePoly} (h : p.toChars = text.toList) :
    (read text).outcome = .ok q ↔ q = p ∧ ∀ t ∈ p.terms, t.coefficient.scale ≤ maxScale := by
  have hterms {us : List Term} : (Reader.readTerms text).outcome = .ok us ↔
      us = p.terms ∧ ∀ t ∈ p.terms, t.coefficient.scale ≤ maxScale :=
    readTerms_eq_ok_iff (congrArg Reader.unspaced h.symm)
  rw [read, Logged.outcome_map_eq_ok]
  simp only [hterms]
  constructor
  · intro hread
    obtain ⟨us, ⟨rfl, hscale⟩, rfl⟩ := hread
    exact ⟨ofTerms_terms p, hscale⟩
  · intro hread
    obtain ⟨rfl, hscale⟩ := hread
    exact ⟨_, ⟨rfl, hscale⟩, (ofTerms_terms q).symm⟩

/-- Writing what was read gives the same text for the texts of the grammar and for no other, and each
of them is the text of a polynomial and is read as it if the places can be counted. Every polynomial is
written as one of them, from its row of entries too. -/
theorem printed_form :
    (∀ (text : String) (p : SparsePoly), (read text).outcome = .ok p →
      (p.text = text ↔ Printed text.toList)) ∧
    (∀ text : String, Printed text.toList → ∃ p : SparsePoly, p.text = text ∧
      ((read text).outcome = .ok p ↔ ∀ t ∈ p.terms, t.coefficient.scale ≤ maxScale)) ∧
    ∀ p : SparsePoly, Printed p.text.toList ∧ p.row.toChars = .ok p.text.toList := by
  have hwritten (p : SparsePoly) : Printed p.text.toList := by
    rw [text, String.toList_ofList]
    exact printed_toChars p
  refine ⟨fun text p hp => ?_, fun text h => ?_, fun p => ⟨hwritten p, ?_⟩⟩
  · constructor
    · intro h
      exact h ▸ hwritten p
    · intro h
      obtain ⟨q, hq⟩ := printed_iff.mp h
      rw [((read_eq_ok_iff hq).mp hp).1, SparsePoly.text, hq, String.ofList_toList]
  · obtain ⟨p, hp⟩ := printed_iff.mp h
    refine ⟨p, by rw [SparsePoly.text, hp, String.ofList_toList], ?_⟩
    rw [read_eq_ok_iff hp, eq_self_iff_true, true_and]
  · rw [text, String.toList_ofList, Plain.Row.toChars_row]

/-- A unit coefficient and a constant of one, beside a text that writes the unit out. -/
theorem printed_form_units :
    let t := "- x^12 + 0.5x - 1"
    let t' := "- 1x^12 + 0.5x - 1"
    let p := ofTerms [⟨-1, 12, by decide⟩, ⟨Decimal.ofScaled 5 1, 1, by decide⟩, .constant (-1)]
    (read t).outcome = .ok p ∧ (read t').outcome = .ok p ∧
      Printed t.toList ∧ ¬Printed t'.toList := by
  intro t t' p
  have ht : (read t).outcome = .ok p := by decide +kernel
  have ht' : (read t').outcome = .ok p := by decide +kernel
  have htext : p.text = t := by decide +kernel
  have hother : p.text ≠ t' := by decide +kernel
  exact ⟨ht, ht', (printed_form.1 t p ht).mp htext, mt (printed_form.1 t' p ht').mpr hother⟩

end SparsePoly
end DecimalPoly
