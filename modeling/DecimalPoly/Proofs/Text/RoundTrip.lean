import DecimalPoly.Document
import DecimalPoly.Proofs.SparsePoly.Value
import DecimalPoly.Proofs.Text.Acceptance
import DecimalPoly.Proofs.Text.Terse

/-! The text of a polynomial reads back as its terms, however it is spaced. Signs cut it without its
blanks into the texts of the terms, each of which is a term for the reader as long as the places of its
coefficient can be counted. -/
namespace DecimalPoly

namespace Reader

def joinedChars (ts : List Term) : List Char :=
  ts.flatMap fun t => (signOf t).toChar :: t.unsignedChars

theorem ofChar?_of_mem_unsignedChars {t : Term} {c : Char} (h : c ∈ t.unsignedChars) :
    Sign.ofChar? c = none := by
  simp only [Sign.ofChar?]
  split
  · have := mem_unsignedChars h
    simp [isNumeral, isMarker] at this
  · have := mem_unsignedChars h
    simp [isNumeral, isMarker] at this
  · rfl

theorem splitAtSigns_joinedChars (ts : List Term) : splitAtSigns (joinedChars ts) =
    ([], ts.map fun u => (signOf u, u.unsignedChars)) := by
  induction ts with
  | nil => rfl
  | cons t ts ih =>
    rw [joinedChars, List.flatMap_cons, List.cons_append, splitAtSigns_sign (ofChar?_toChar _),
      splitAtSigns_append fun c hc => ofChar?_of_mem_unsignedChars hc]
    rw [joinedChars] at ih
    rw [ih, List.append_nil]
    rfl

theorem unspaced_unsignedChars (t : Term) : unspaced t.unsignedChars = t.unsignedChars := by
  apply List.filter_eq_self.mpr
  intro c hc
  rw [isBlank]
  by_cases hb : c = ' '
  · subst hb
    have := mem_unsignedChars hc
    simp [isNumeral, isMarker] at this
  · simpa using hb

theorem unspaced_joiningSign (t : Term) :
    unspaced (SparsePoly.joiningSign t) = [(signOf t).toChar] := by
  rw [SparsePoly.joiningSign, signOf]
  cases t.coefficient.isNegative <;> rfl

theorem unspaced_tail (ts : List Term) :
    unspaced (ts.flatMap fun t => SparsePoly.joiningSign t ++ t.unsignedChars) =
      joinedChars ts := by
  induction ts with
  | nil => rfl
  | cons t ts ih =>
    have hjoin := unspaced_joiningSign t
    have hterm := unspaced_unsignedChars t
    rw [unspaced] at *
    rw [List.flatMap_cons, List.filter_append, List.filter_append, ih, hjoin, hterm]
    rfl

theorem unspaced_joined (t : Term) (ts : List Term) :
    unspaced (SparsePoly.leadingSign t ++ t.unsignedChars ++
      ts.flatMap fun u => SparsePoly.joiningSign u ++ u.unsignedChars) =
      if t.coefficient.isNegative then joinedChars (t :: ts)
      else t.unsignedChars ++ joinedChars ts := by
  have hterm := unspaced_unsignedChars t
  have htail := unspaced_tail ts
  rw [unspaced] at hterm htail ⊢
  rw [List.filter_append, List.filter_append, hterm, htail, List.append_assoc]
  have hjoined : joinedChars (t :: ts) = (signOf t).toChar :: (t.unsignedChars ++ joinedChars ts) :=
    List.flatMap_cons
  rw [hjoined, signOf, SparsePoly.leadingSign]
  cases t.coefficient.isNegative with
  | false => rfl
  | true => rfl

end Reader

namespace Grammar
open Reader

def pieceOf (t : Term) : Sign × List Char := (signOf t, t.unsignedChars)

section
variable {t u : Term} {ts us : List Term} {text : String}

theorem piecesOf_joined (t : Term) (ts : List Term) : ∃ blank,
    piecesOf (unspaced (SparsePoly.leadingSign t ++ t.unsignedChars ++
      ts.flatMap fun u => SparsePoly.joiningSign u ++ u.unsignedChars)) =
        blank ++ (t :: ts).map pieceOf ∧ ∀ piece ∈ blank, piece.2 = [] := by
  rw [unspaced_joined, piecesOf]
  cases hsign : t.coefficient.isNegative with
  | true =>
    -- in front of the leading minus sign stands an empty piece
    rw [if_pos rfl, splitAtSigns_joinedChars]
    exact ⟨[(.plus, [])], rfl, by simp⟩
  | false =>
    have hplus : Sign.plus = signOf t := by simp [signOf, hsign]
    rw [if_neg Bool.false_ne_true, splitAtSigns_append fun c hc => ofChar?_of_mem_unsignedChars hc,
      splitAtSigns_joinedChars, List.append_nil, hplus]
    exact ⟨[], rfl, by simp⟩

theorem scale_le_of_readMagnitude {m : Decimal} (h : readMagnitude (factorChars t) = .ok m) :
    t.coefficient.scale ≤ maxScale := by
  rw [readMagnitude, factorChars] at h
  by_cases hone : t.coefficient.abs = 1 ∧ t.exponent ≠ 0
  · have hscale : t.coefficient.scale = 0 := congrArg Decimal.scale hone.1
    rw [hscale]
    exact Nat.zero_le _
  · rw [if_neg hone, if_neg (Decimal.unsignedChars_ne_nil _)] at h
    have hle := Decimal.scale_le_of_read h
    rw [read_iff fun c hc => isNumeral_of_mem_unsignedChars hc, numeralValue_unsignedChars,
      Decimal.toRat_inj] at h
    rwa [h.2] at hle

theorem reads_pieceOf : Reads (pieceOf t) u ↔ u = t ∧ t.coefficient.scale ≤ maxScale := by
  constructor
  · intro h
    have hread := h
    rw [Reads, pieceOf, readTerm, takeWhile_unsignedChars] at hread
    obtain ⟨m, hm, -⟩ := bind_eq_ok.mp hread
    have hscale := scale_le_of_readMagnitude hm
    exact ⟨Except.ok.inj (h.symm.trans (readTerm_unsignedChars hscale)), hscale⟩
  · intro h
    obtain ⟨rfl, hscale⟩ := h
    exact readTerm_unsignedChars hscale

theorem forall₂_reads_pieceOf : List.Forall₂ Reads (ts.map pieceOf) us ↔
    us = ts ∧ ∀ t ∈ ts, t.coefficient.scale ≤ maxScale := by
  induction ts generalizing us with
  | nil => simp
  | cons t ts ih =>
    simp only [List.map_cons, List.forall₂_cons_left_iff, reads_pieceOf, ih, List.forall_mem_cons]
    constructor
    · intro h
      obtain ⟨u, us, ⟨rfl, ht⟩, ⟨rfl, hts⟩, rfl⟩ := h
      exact ⟨rfl, ht, hts⟩
    · intro h
      obtain ⟨rfl, ht, hts⟩ := h
      exact ⟨t, ts, ⟨rfl, ht⟩, ⟨rfl, hts⟩, rfl⟩

theorem inAlphabet_of_mem_unsignedChars {c : Char} (h : c ∈ t.unsignedChars) : InAlphabet c := by
  rw [← isKnown_iff (ofChar?_of_mem_unsignedChars h), IsKnown]
  cases mem_unsignedChars h with
  | inl hn => simp [hn]
  | inr hm => simp [hm]

theorem inAlphabet_of_mem_joinedChars {c : Char} (h : c ∈ joinedChars ts) : InAlphabet c := by
  obtain ⟨t, -, hc⟩ := List.mem_flatMap.mp h
  cases List.mem_cons.mp hc with
  | inl hsign => rw [hsign]; exact inAlphabet_toChar _
  | inr hc => exact inAlphabet_of_mem_unsignedChars hc

theorem inAlphabet_of_unspaced (h : unspaced text.toList = unspaced (SparsePoly.leadingSign t ++
    t.unsignedChars ++ ts.flatMap fun u => SparsePoly.joiningSign u ++ u.unsignedChars)) :
    ∀ c ∈ text.toList, InAlphabet c := by
  intro c hc
  by_cases hblank : c = ' '
  · rw [hblank]
    decide
  · have hmem : c ∈ unspaced text.toList := List.mem_filter.mpr ⟨hc, by simpa [isBlank] using hblank⟩
    rw [h, unspaced_joined] at hmem
    split at hmem
    · exact inAlphabet_of_mem_joinedChars hmem
    · cases List.mem_append.mp hmem with
      | inl hfirst => exact inAlphabet_of_mem_unsignedChars hfirst
      | inr hrest => exact inAlphabet_of_mem_joinedChars hrest

theorem readTerms_of_unspaced (h : unspaced text.toList = unspaced (SparsePoly.leadingSign t ++
    t.unsignedChars ++ ts.flatMap fun u => SparsePoly.joiningSign u ++ u.unsignedChars)) :
    (readTerms text).outcome = .ok us ↔
      us = t :: ts ∧ ∀ u ∈ t :: ts, u.coefficient.scale ≤ maxScale := by
  obtain ⟨blank, hpieces, hblank⟩ := piecesOf_joined t ts
  have hlast : ∀ piece ∈ (piecesOf (unspaced text.toList)).getLast?, piece.2 ≠ [] := by
    have hsome : (t :: ts).map pieceOf ≠ [] := List.cons_ne_nil _ _
    rw [h, hpieces, List.getLast?_append_of_ne_nil _ hsome, List.getLast?_map]
    intro piece hpiece
    obtain ⟨u, -, rfl⟩ := Option.map_eq_some_iff.mp hpiece
    exact unsignedChars_ne_nil u
  have hwritten : nonempty (piecesOf (unspaced text.toList)) = (t :: ts).map pieceOf := by
    have hnone : nonempty blank = [] := by simpa [nonempty] using hblank
    have hall : nonempty ((t :: ts).map pieceOf) = (t :: ts).map pieceOf := by
      refine List.filter_eq_self.mpr fun piece hpiece => ?_
      obtain ⟨u, -, rfl⟩ := List.mem_map.mp hpiece
      exact decide_eq_true (unsignedChars_ne_nil u)
    rw [h, hpieces, nonempty, List.filter_append]
    rw [nonempty] at hnone hall
    rw [hnone, hall, List.nil_append]
  rw [readTerms_iff, hwritten, forall₂_reads_pieceOf]
  exact ⟨fun hread => hread.2.2, fun hread => ⟨inAlphabet_of_unspaced h, .inr hlast, hread⟩⟩

end

end Grammar
namespace SparsePoly
open Reader

theorem toChars_eq (p : SparsePoly) : ∃ t ts, p.terms = t :: ts ∧ p.toChars =
    leadingSign t ++ t.unsignedChars ++ ts.flatMap fun u => joiningSign u ++ u.unsignedChars := by
  rw [terms, toChars]
  cases p.support with
  | nil => exact ⟨Term.constant 0, [], by simp, by decide⟩
  | cons t ts => exact ⟨t, ts, by simp, rfl⟩

theorem readTerms_eq_ok_iff {p : SparsePoly} {text : String} {us : List Term}
    (h : unspaced text.toList = unspaced p.toChars) : (readTerms text).outcome = .ok us ↔
      us = p.terms ∧ ∀ t ∈ p.terms, t.coefficient.scale ≤ maxScale := by
  obtain ⟨t, ts, hterms, htext⟩ := toChars_eq p
  rw [htext] at h
  rw [hterms]
  exact Grammar.readTerms_of_unspaced h

theorem read_of_readTerms {text : String} {p : SparsePoly}
    (h : (readTerms text).outcome = .ok p.terms) : (SparsePoly.read text).outcome = .ok p := by
  rw [SparsePoly.read, Logged.outcome_map h, ofTerms_terms]

/-- The text of a polynomial whose places can be counted gives it back, with any other spacing: first
its terms in their order, the zero term of the zero polynomial too, and then itself. So does its
serialized form, in every format that reads back the strings it wrote. -/
theorem read_of_text (p : SparsePoly) (hscale : ∀ t ∈ p.terms, t.coefficient.scale ≤ maxScale) :
    (∀ text : String, text.toList.filter (· ≠ ' ') = p.text.toList.filter (· ≠ ' ') →
      (readTerms text).outcome = .ok p.terms ∧ (SparsePoly.read text).outcome = .ok p) ∧
    (SparsePoly.read p.text).outcome = .ok p ∧
    ∀ (Data : Type) (format : StringFormat Data), format.Lawful →
      (deserialize? format (p.serialize format)).map Logged.outcome = some (.ok p) := by
  have hread (text : String)
      (h : text.toList.filter (· ≠ ' ') = p.text.toList.filter (· ≠ ' ')) :
      (readTerms text).outcome = .ok p.terms := by
    have hchars : p.text.toList = p.toChars := String.toList_ofList
    rw [Grammar.filter_eq_unspaced, Grammar.filter_eq_unspaced, hchars] at h
    exact (readTerms_eq_ok_iff h).mpr ⟨rfl, hscale⟩
  have hself := read_of_readTerms (hread p.text rfl)
  refine ⟨fun text h => ⟨hread text h, read_of_readTerms (hread text h)⟩, hself, ?_⟩
  intro Data format hformat
  rw [deserialize?, serialize, hformat.read?_write]
  exact congrArg some hself

/-- Blanks inside a number and inside an exponent, and none around the signs. -/
theorem read_of_text_respaced :
    let p := ofTerms [⟨1, 1, by decide⟩, ⟨Decimal.ofScaled (-15) 1, 10, by decide⟩]
    let text := "-1 . 5 x^ 1 0+x "
    (∀ t ∈ p.terms, t.coefficient.scale ≤ maxScale) ∧ p.text = "- 1.5x^10 + x" ∧
      text.toList.filter (· ≠ ' ') = p.text.toList.filter (· ≠ ' ') ∧
      (readTerms text).outcome = .ok p.terms ∧ (SparsePoly.read text).outcome = .ok p := by
  intro p text
  have hscale : ∀ t ∈ p.terms, t.coefficient.scale ≤ maxScale := by decide +kernel
  have hblanks : text.toList.filter (· ≠ ' ') = p.text.toList.filter (· ≠ ' ') := by
    decide +kernel
  exact ⟨hscale, by decide +kernel, hblanks, (read_of_text p hscale).1 text hblanks⟩

end SparsePoly
end DecimalPoly
