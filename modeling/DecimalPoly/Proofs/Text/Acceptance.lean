import DecimalPoly.Proofs.Plain.Scanner
import DecimalPoly.Proofs.Text.Grammar
import Mathlib.Data.List.Forall2

/-! Which texts are read, and as which terms. Signs cut a text without its blanks into pieces, and
it is read if each piece that is not empty is a term and no sign ends it. -/
namespace DecimalPoly.Grammar
open Reader

def SignFree (cs : List Char) : Prop := ∀ c ∈ cs, c ≠ '+' ∧ c ≠ '-'

/-- `Cut g cs pieces`: the characters `cs` behind the sign `g` are these pieces with signs between
them. Each piece comes with the last sign in front of it. -/
inductive Cut : Sign → List Char → List (Sign × List Char) → Prop where
  | last {g : Sign} {cs : List Char} (free : SignFree cs) : Cut g cs [(g, cs)]
  | next {g g' : Sign} {piece cs : List Char} {pieces : List (Sign × List Char)}
      (free : SignFree piece) (more : Cut g' cs pieces) :
      Cut g (piece ++ g'.toChar :: cs) ((g, piece) :: pieces)

def nonempty (pieces : List (Sign × List Char)) : List (Sign × List Char) :=
  pieces.filter fun piece => piece.2 ≠ []

def InAlphabet (c : Char) : Prop := c.isDigit = true ∨ c ∈ ['.', 'x', '^', '+', '-', ' ']

instance : DecidablePred InAlphabet := fun _ => inferInstanceAs (Decidable (_ ∨ _))

structure IsText (text : List Char) (pieces : List (Sign × List Char)) : Prop where
  alphabet : ∀ c ∈ text, InAlphabet c
  closed : ∀ c ∈ (text.filter (· ≠ ' ')).getLast?, c ≠ '+' ∧ c ≠ '-'
  terms : ∀ piece ∈ nonempty pieces, IsTerm piece.2

section Cuts
variable {g : Sign} {cs : List Char} {pieces : List (Sign × List Char)}

theorem Cut.cons {c : Char} {piece : List Char} (hc : c ≠ '+' ∧ c ≠ '-')
    (h : Cut g cs ((g, piece) :: pieces)) : Cut g (c :: cs) ((g, c :: piece) :: pieces) := by
  cases h with
  | last free => exact .last (List.forall_mem_cons.mpr ⟨hc, free⟩)
  | next free more => exact .next (List.forall_mem_cons.mpr ⟨hc, free⟩) more

theorem Cut.append {g' : Sign} {rest : List Char} {others : List (Sign × List Char)}
    (h : Cut g cs pieces) (more : Cut g' rest others) :
    Cut g (cs ++ g'.toChar :: rest) (pieces ++ others) := by
  induction h with
  | last free => exact .next free more
  | next free _ ih =>
    rw [List.append_assoc]
    exact .next free ih

theorem cut_splitAtSigns (g : Sign) (cs : List Char) :
    Cut g cs ((g, (splitAtSigns cs).1) :: (splitAtSigns cs).2) := by
  induction cs generalizing g with
  | nil => exact .last (List.forall_mem_nil _)
  | cons c cs ih =>
    cases hs : Sign.ofChar? c with
    | some g' =>
      have hnext : Cut g ([] ++ g'.toChar :: cs) _ := .next (List.forall_mem_nil _) (ih g')
      rw [toChar_of_ofChar? hs] at hnext
      rwa [splitAtSigns_sign hs]
    | none =>
      rw [splitAtSigns_other hs]
      exact (ih g).cons (ofChar?_eq_none.mp hs)

theorem cut_iff : Cut g cs pieces ↔ pieces = (g, (splitAtSigns cs).1) :: (splitAtSigns cs).2 := by
  constructor
  · intro h
    induction h with
    | last free =>
      have happend := splitAtSigns_append (fun c hc => ofChar?_eq_none.mpr (free c hc)) []
      rw [List.append_nil] at happend
      rw [happend]
      simp [splitAtSigns]
    | next free more ih =>
      rw [splitAtSigns_append fun c hc => ofChar?_eq_none.mpr (free c hc),
        splitAtSigns_sign (ofChar?_toChar _), ih]
      simp
  · intro h
    rw [h]
    exact cut_splitAtSigns g cs

theorem Cut.length_le (h : Cut g cs pieces) : ∀ piece ∈ pieces, piece.2.length ≤ cs.length := by
  induction h with
  | last free => simp
  | next free more ih =>
    rw [List.length_append, List.length_cons]
    refine List.forall_mem_cons.mpr ⟨Nat.le_add_right .., fun piece hpiece => ?_⟩
    have hlater := ih piece hpiece
    omega

theorem Cut.exists_cons (h : Cut g cs pieces) : ∃ first others, pieces = first :: others := by
  cases h with
  | last => exact ⟨_, _, rfl⟩
  | next => exact ⟨_, _, rfl⟩

theorem Cut.closed_iff (h : Cut g cs pieces) :
    (∀ c ∈ (g.toChar :: cs).getLast?, c ≠ '+' ∧ c ≠ '-') ↔
      ∀ piece ∈ pieces.getLast?, piece.2 ≠ [] := by
  induction h with
  | @last g cs free =>
    cases cs with
    | nil => cases g <;> simp [Sign.toChar]
    | cons c cs =>
      rw [List.getLast?_cons_cons]
      constructor
      · intro _ piece hpiece
        cases hpiece
        exact List.cons_ne_nil c cs
      · exact fun _ d hd => free d (List.mem_of_getLast? hd)
  | @next g g' piece cs pieces free more ih =>
    obtain ⟨first, others, rfl⟩ := more.exists_cons
    rw [← List.cons_append, List.getLast?_append_of_ne_nil _ (List.cons_ne_nil _ _), ih,
      List.getLast?_cons_cons]

theorem Cut.getLast?_iff (h : Cut g cs pieces) : (∀ c ∈ cs.getLast?, c ≠ '+' ∧ c ≠ '-') ↔
    pieces.length = 1 ∨ ∀ piece ∈ pieces.getLast?, piece.2 ≠ [] := by
  cases h with
  | last free => exact ⟨fun _ => .inl rfl, fun _ c hc => free c (List.mem_of_getLast? hc)⟩
  | next free more =>
    have hclosed := more.closed_iff
    obtain ⟨first, others, rfl⟩ := more.exists_cons
    rw [List.getLast?_append_of_ne_nil _ (List.cons_ne_nil _ _), hclosed, List.getLast?_cons_cons]
    simp

end Cuts

section Pieces

def Reads (piece : Sign × List Char) (t : Term) : Prop := readTerm piece.1 piece.2 = .ok t

def piecesOf (cs : List Char) : List (Sign × List Char) :=
  (.plus, (splitAtSigns cs).1) :: (splitAtSigns cs).2

def unspacedPiece (piece : Sign × List Char) : Sign × List Char := (piece.1, unspaced piece.2)

def IsKnown (c : Char) : Prop := (isNumeral c || isMarker c || isBlank c) = true

theorem known_of_firstForeign? {offset : Nat} {cs : List Char}
    (h : firstForeign? offset cs = none) : ∀ c ∈ cs, IsKnown c := by
  induction cs generalizing offset with
  | nil => simp
  | cons c cs ih =>
    rw [firstForeign?] at h
    split at h
    · next hc => exact List.forall_mem_cons.mpr ⟨hc, ih h⟩
    · cases h

theorem bind_readSegment_iff {offset : Nat} {g : Sign} {segment : List Char}
    {f : Option Term → Logged (List Term)} {ts : List Term} :
    (readSegment offset g segment >>= f).outcome = .ok ts ↔ (∀ c ∈ segment, IsKnown c) ∧
      if unspaced segment = [] then (f none).outcome = .ok ts
      else ∃ t, readTerm g (unspaced segment) = .ok t ∧ (f (some t)).outcome = .ok ts := by
  cases hforeign : firstForeign? offset segment with
  | some foreign =>
    have hnot : ¬ ∀ c ∈ segment, IsKnown c := by
      intro h
      rw [firstForeign?_eq_none h] at hforeign
      cases hforeign
    rw [readSegment_of_foreign hforeign]
    constructor
    · intro h
      cases h
    · exact fun h => absurd h.1 hnot
  | none =>
    rw [readSegment_of_known hforeign, and_iff_right (known_of_firstForeign? hforeign)]
    by_cases hblank : unspaced segment = []
    · rw [if_pos hblank, if_pos hblank, pure_bind]
    · rw [if_neg hblank, if_neg hblank, bind_map_left]
      simp only [Logged.outcome_bind_eq_ok, outcome_logTerm]

section
variable {segment : List Char} (g : Sign) (pieces : List (Sign × List Char))

theorem nonempty_of_blank (h : unspaced segment = []) :
    nonempty (unspacedPiece (g, segment) :: pieces) = nonempty pieces := by
  simp [nonempty, unspacedPiece, h]

theorem nonempty_of_written (h : unspaced segment ≠ []) :
    nonempty (unspacedPiece (g, segment) :: pieces) =
      (g, unspaced segment) :: nonempty pieces := by
  simp [nonempty, unspacedPiece, h]

end

theorem readSegments_iff {offset : Nat} {sign : Option Sign} {segment : List Char}
    {rest : List (Sign × List Char)} {ts : List Term} :
    (readSegments offset sign segment rest).outcome = .ok ts ↔
      (∀ piece ∈ (sign.getD .plus, segment) :: rest, ∀ c ∈ piece.2, IsKnown c) ∧
      (sign = none ∧ rest = [] ∨
        ∀ piece ∈ (((sign.getD .plus, segment) :: rest).map unspacedPiece).getLast?,
          piece.2 ≠ []) ∧
      List.Forall₂ Reads
        (nonempty (((sign.getD .plus, segment) :: rest).map unspacedPiece)) ts := by
  induction rest generalizing offset sign segment ts with
  | nil =>
    rw [readSegments, bind_readSegment_iff, List.map_cons, List.map_nil]
    by_cases hblank : unspaced segment = []
    · rw [if_pos hblank, nonempty_of_blank _ _ hblank]
      cases sign with
      | none => simp [Logged.outcome_pure_eq_ok, nonempty]
      | some g => simp [Logged.outcome_fail_ne_ok, unspacedPiece, hblank]
    · rw [if_neg hblank, nonempty_of_written _ _ hblank, List.forall₂_cons_left_iff]
      simp [Logged.outcome_pure_eq_ok, unspacedPiece, hblank, nonempty, Reads]
  | cons next rest ih =>
    obtain ⟨g, following⟩ := next
    have hsome : ¬ (some g = none ∧ rest = []) := by
      intro h
      cases h.1
    have hcons : ¬ (sign = none ∧ (g, following) :: rest = []) := by
      intro h
      cases h.2
    rw [readSegments, bind_readSegment_iff, List.forall_mem_cons, and_assoc, List.map_cons,
      or_iff_right hcons]
    simp only [Logged.outcome_map_eq_ok, ih, or_iff_right hsome]
    by_cases hblank : unspaced segment = []
    · rw [if_pos hblank, nonempty_of_blank _ _ hblank]
      simp
    · rw [if_neg hblank, nonempty_of_written _ _ hblank, List.forall₂_cons_left_iff]
      constructor
      · intro hread
        obtain ⟨hsegment, t, ht, us, ⟨hknown, hclosed, hus⟩, rfl⟩ := hread
        exact ⟨hsegment, hknown, hclosed, t, us, ht, hus, rfl⟩
      · intro hread
        obtain ⟨hsegment, hknown, hclosed, t, us, ht, hus, rfl⟩ := hread
        exact ⟨hsegment, t, ht, us, ⟨hknown, hclosed, hus⟩, rfl⟩

theorem isKnown_iff {c : Char} (h : Sign.ofChar? c = none) : IsKnown c ↔ InAlphabet c := by
  obtain ⟨hplus, hminus⟩ := ofChar?_eq_none.mp h
  simp [IsKnown, InAlphabet, isNumeral, isMarker, isBlank, hplus, hminus, or_assoc]

theorem inAlphabet_toChar (g : Sign) : InAlphabet g.toChar := by
  cases g with
  | plus => exact .inr (by decide)
  | minus => exact .inr (by decide)

theorem known_pieces_iff (cs : List Char) :
    (∀ piece ∈ piecesOf cs, ∀ c ∈ piece.2, IsKnown c) ↔ ∀ c ∈ cs, InAlphabet c := by
  induction cs with
  | nil => simp [piecesOf, splitAtSigns]
  | cons c cs ih =>
    simp only [piecesOf, List.forall_mem_cons] at ih ⊢
    rw [← ih]
    cases hs : Sign.ofChar? c with
    | some g =>
      have hc := inAlphabet_toChar g
      rw [toChar_of_ofChar? hs] at hc
      simp [splitAtSigns_sign hs, hc]
    | none =>
      rw [← isKnown_iff hs]
      simp [splitAtSigns_other hs, and_assoc]

theorem forall₂_congr {R S : Sign × List Char → Term → Prop} {ts : List Term}
    {pieces : List (Sign × List Char)} (h : ∀ piece ∈ pieces, ∀ t, R piece t ↔ S piece t) :
    List.Forall₂ R pieces ts ↔ List.Forall₂ S pieces ts := by
  induction pieces generalizing ts with
  | nil => simp
  | cons piece pieces ih =>
    obtain ⟨hpiece, hpieces⟩ := List.forall_mem_cons.mp h
    simp only [List.forall₂_cons_left_iff, hpiece, ih hpieces]

theorem exists_terms {pieces : List (Sign × List Char)}
    (h : ∀ piece ∈ pieces, IsTerm piece.2) :
    ∃ ts, List.Forall₂ (fun piece t => Means piece.1 piece.2 t) pieces ts := by
  induction pieces with
  | nil => exact ⟨[], .nil⟩
  | cons piece pieces ih =>
    obtain ⟨hpiece, hpieces⟩ := List.forall_mem_cons.mp h
    obtain ⟨t, ht⟩ := exists_means hpiece piece.1
    obtain ⟨ts, hts⟩ := ih hpieces
    exact ⟨t :: ts, .cons ht hts⟩

end Pieces

theorem piecesOf_unspaced (cs : List Char) :
    piecesOf (unspaced cs) = (piecesOf cs).map unspacedPiece := by
  rw [piecesOf, splitAtSigns_unspaced]
  rfl

theorem outcome_readTerms {text : String} {ts : List Term} :
    (readTerms text).outcome = .ok ts ↔ (readSegments 0 none (splitAtSigns text.toList).1
      (splitAtSigns text.toList).2).outcome = .ok ts := by
  simp only [readTerms, Logged.outcome_bind_eq_ok]
  constructor
  · intro hread
    obtain ⟨us, hus, -, -, ⟨⟩⟩ := hread
    exact hus
  · exact fun h => ⟨ts, h, ⟨⟩, rfl, rfl⟩

theorem readTerms_iff {text : String} {ts : List Term} : (readTerms text).outcome = .ok ts ↔
    (∀ c ∈ text.toList, InAlphabet c) ∧
      ((piecesOf (unspaced text.toList)).length = 1 ∨
        ∀ piece ∈ (piecesOf (unspaced text.toList)).getLast?, piece.2 ≠ []) ∧
      List.Forall₂ Reads (nonempty (piecesOf (unspaced text.toList))) ts := by
  rw [outcome_readTerms, readSegments_iff, ← known_pieces_iff, piecesOf_unspaced, piecesOf,
    List.length_map]
  simp

theorem scale_le_of_reads {piece : Sign × List Char} {t : Term} (h : Reads piece t) :
    t.coefficient.scale ≤ maxScale := by
  obtain ⟨m, hm, h⟩ := bind_eq_ok.mp h
  obtain ⟨e, -, ⟨⟩⟩ := bind_eq_ok.mp h
  have hle : m.scale ≤ maxScale := by
    rw [readMagnitude] at hm
    split at hm
    · cases hm
      exact Nat.zero_le _
    · exact Decimal.scale_le_of_read hm
  cases piece.1 with
  | plus => exact hle
  | minus => exact hle

theorem scale_le_of_readTerms {text : String} {ts : List Term}
    (h : (readTerms text).outcome = .ok ts) : ∀ t ∈ ts, t.coefficient.scale ≤ maxScale := by
  intro t ht
  obtain ⟨piece, -, hread⟩ := exists_of_mem_right (readTerms_iff.mp h).2.2 ht
  exact scale_le_of_reads hread

theorem known_of_mem_unspaced {cs : List Char} (h : ∀ c ∈ cs, InAlphabet c)
    {piece : Sign × List Char} (hpiece : piece ∈ piecesOf (unspaced cs)) :
    ∀ c ∈ piece.2, isNumeral c = true ∨ isMarker c = true := by
  rw [piecesOf_unspaced] at hpiece
  obtain ⟨raw, hraw, rfl⟩ := List.mem_map.mp hpiece
  intro c hc
  obtain ⟨hmem, hblank⟩ := List.mem_filter.mp hc
  have hknown := (known_pieces_iff cs).mpr h raw hraw c hmem
  rw [Bool.not_eq_true'] at hblank
  simpa [IsKnown, hblank] using hknown

theorem forall₂_reads_iff {pieces : List (Sign × List Char)}
    (h : ∀ piece ∈ pieces, ∀ c ∈ piece.2, isNumeral c = true ∨ isMarker c = true) {ts : List Term} :
    List.Forall₂ Reads pieces ts ↔ (∀ piece ∈ pieces, IsTerm piece.2) ∧
      List.Forall₂ (fun piece t => Means piece.1 piece.2 t) pieces ts := by
  rw [← List.forall₂_and_left]
  exact forall₂_congr fun piece hpiece t => readTerm_iff (h piece hpiece)

theorem filter_eq_unspaced (cs : List Char) : cs.filter (· ≠ ' ') = unspaced cs := by
  simp [unspaced, isBlank]

theorem readTerms_iff_means {text : String} {ts : List Term} :
    (readTerms text).outcome = .ok ts ↔
      IsText text.toList (piecesOf (unspaced text.toList)) ∧
        List.Forall₂ (fun piece t => Means piece.1 piece.2 t)
          (nonempty (piecesOf (unspaced text.toList))) ts := by
  have hclosed : (∀ c ∈ (text.toList.filter (· ≠ ' ')).getLast?, c ≠ '+' ∧ c ≠ '-') ↔
      (piecesOf (unspaced text.toList)).length = 1 ∨
        ∀ piece ∈ (piecesOf (unspaced text.toList)).getLast?, piece.2 ≠ [] := by
    rw [filter_eq_unspaced]
    exact (cut_splitAtSigns .plus _).getLast?_iff
  have hknown (halphabet : ∀ c ∈ text.toList, InAlphabet c) :
      ∀ piece ∈ nonempty (piecesOf (unspaced text.toList)),
        ∀ c ∈ piece.2, isNumeral c = true ∨ isMarker c = true :=
    fun piece hpiece => known_of_mem_unspaced halphabet (List.mem_of_mem_filter hpiece)
  rw [readTerms_iff, ← hclosed]
  constructor
  · intro hread
    obtain ⟨halphabet, hlast, hreads⟩ := hread
    obtain ⟨hterms, hmeans⟩ := (forall₂_reads_iff (hknown halphabet)).mp hreads
    exact ⟨⟨halphabet, hlast, hterms⟩, hmeans⟩
  · intro htext
    obtain ⟨⟨halphabet, hlast, hterms⟩, hmeans⟩ := htext
    exact ⟨halphabet, hlast, (forall₂_reads_iff (hknown halphabet)).mpr ⟨hterms, hmeans⟩⟩

end DecimalPoly.Grammar
