import DecimalPoly.Proofs.SparsePoly.Collecting
import DecimalPoly.Proofs.Text.Rejection

/-! Two texts with a sign between them. The sign closes the first text as its end does, and behind
the sign the second text is cut as it is when it stands alone. So both are read one after the other,
and joined by a plus sign they stand for the sum. -/
namespace DecimalPoly.Grammar
open Reader Plain

def piecesUnder (g : Sign) (cs : List Char) : List (Sign × List Char) :=
  (g, (splitAtSigns cs).1) :: (splitAtSigns cs).2

theorem piecesOf_join (cs rest : List Char) (g : Sign) :
    piecesOf (cs ++ g.toChar :: rest) = piecesOf cs ++ piecesUnder g rest :=
  (cut_iff.mp ((cut_splitAtSigns .plus cs).append (cut_splitAtSigns g rest))).symm

theorem nonempty_append (pieces others : List (Sign × List Char)) :
    nonempty (pieces ++ others) = nonempty pieces ++ nonempty others :=
  List.filter_append ..

section
variable {g g' : Sign} {piece : List Char} {pieces : List (Sign × List Char)} {t : Term}

theorem isTerm_nonempty_cons (h : ∀ p ∈ nonempty ((g, piece) :: pieces), IsTerm p.2) :
    ∀ p ∈ nonempty ((g', piece) :: pieces), IsTerm p.2 := by
  intro p hp
  obtain ⟨hmem, hne⟩ := List.mem_filter.mp hp
  cases List.mem_cons.mp hmem with
  | inl hfirst =>
    subst hfirst
    exact h (g, piece) (List.mem_filter.mpr ⟨List.mem_cons_self, hne⟩)
  | inr hother => exact h p (List.mem_filter.mpr ⟨List.mem_cons_of_mem _ hother, hne⟩)

theorem Means.neg (h : Means .plus piece t) : Means .minus piece (-t) := by
  obtain ⟨front, rest, hsplit, hcoefficient, hexponent⟩ := h
  refine ⟨front, rest, hsplit, ?_, hexponent⟩
  have hneg : (-t).coefficient = -t.coefficient := rfl
  rw [hneg, Decimal.toRat_neg, hcoefficient, if_neg (by decide), if_pos rfl]

end

section
variable {s t text : String} {us vs ws : List Term} {g : Sign}

theorem readTerms_sign (htext : text.toList = s.toList ++ g.toChar :: t.toList)
    (hs : (readTerms s).outcome = .ok us)
    (ht : IsText t.toList (piecesUnder g (unspaced t.toList))) (hne : unspaced t.toList ≠ [])
    (hws : List.Forall₂ (fun piece t => Means piece.1 piece.2 t)
      (nonempty (piecesUnder g (unspaced t.toList))) ws) :
    (readTerms text).outcome = .ok (us ++ ws) := by
  obtain ⟨hstext, hus⟩ := readTerms_iff_means.mp hs
  have hpieces : nonempty (piecesOf (unspaced text.toList)) =
      nonempty (piecesOf (unspaced s.toList)) ++ nonempty (piecesUnder g (unspaced t.toList)) := by
    rw [htext, unspaced_append, unspaced_sign, piecesOf_join, nonempty_append]
  refine readTerms_iff_means.mpr ⟨⟨?alphabet, ?closed, ?terms⟩, ?means⟩
  case alphabet =>
    rw [htext]
    exact List.forall_mem_append.mpr ⟨hstext.alphabet,
      List.forall_mem_cons.mpr ⟨inAlphabet_toChar g, ht.alphabet⟩⟩
  case closed =>
    -- the joined text ends as the second one does
    have hclosed := ht.closed
    rw [filter_eq_unspaced] at hclosed
    rwa [filter_eq_unspaced, htext, unspaced_append, unspaced_sign,
      List.getLast?_append_of_ne_nil _ (List.cons_ne_nil _ _), List.getLast?_cons_of_ne_nil hne]
  case terms =>
    rw [hpieces]
    exact List.forall_mem_append.mpr ⟨hstext.terms, ht.terms⟩
  case means =>
    rw [hpieces]
    exact List.rel_append hus hws

end

/-- Two accepted texts, the second not blank, are accepted with a plus sign between them, as the terms
of both in their order, and so as the sum of both. With a minus sign between them the first term of
the second text is negated, provided that it stands under no sign of its own. The scanner that goes
through the text once, with what it has pending at the sign, reads the same. -/
theorem readTerms_join {s t : String} {us vs : List Term} (hs : (readTerms s).outcome = .ok us)
    (ht : (readTerms t).outcome = .ok vs) (hwritten : ∃ c ∈ t.toList, c ≠ ' ') :
    (readTerms (s ++ "+" ++ t)).outcome = .ok (us ++ vs) ∧
    (∃ p q, (SparsePoly.read s).outcome = .ok p ∧ (SparsePoly.read t).outcome = .ok q ∧
      (SparsePoly.read (s ++ "+" ++ t)).outcome = .ok (p + q) ∧ (p + q).row = p.row.add q.row) ∧
    ((∀ c ∈ (t.toList.filter (· ≠ ' ')).head?, c ≠ '+' ∧ c ≠ '-') → ∃ v rest, vs = v :: rest ∧
      (readTerms (s ++ "-" ++ t)).outcome = .ok (us ++ -v :: rest)) ∧
    ∀ text, Noted.WritesOut Row.ofTerms (scan text) (readTerms text) := by
  obtain ⟨htext, hvs⟩ := readTerms_iff_means.mp ht
  have hne : unspaced t.toList ≠ [] := by
    obtain ⟨c, hc, hblank⟩ := hwritten
    exact fun hnil => hblank (unspaced_eq_nil.mp hnil c hc)
  have hplus : (readTerms (s ++ "+" ++ t)).outcome = .ok (us ++ vs) :=
    readTerms_sign (g := .plus) (by simp [Sign.toChar]) hs htext hne hvs
  refine ⟨hplus, ?_, fun hunsigned => ?_, writesOut_scan⟩
  · refine ⟨.ofTerms us, .ofTerms vs, Logged.outcome_map hs _, Logged.outcome_map ht _, ?_,
      SparsePoly.row_add ..⟩
    rw [SparsePoly.read, Logged.outcome_map hplus, SparsePoly.ofTerms_append]
  · -- the second text does not start with a sign, so its first piece is the one that a minus sign meets
    obtain ⟨c, cs, hcs⟩ := List.exists_cons_of_ne_nil hne
    rw [filter_eq_unspaced, hcs] at hunsigned
    have hfirst : (splitAtSigns (unspaced t.toList)).1 ≠ [] := by
      rw [hcs, splitAtSigns_other (ofChar?_eq_none.mpr (hunsigned c rfl))]
      exact List.cons_ne_nil _ _
    have hcons (g : Sign) : nonempty (piecesUnder g (unspaced t.toList)) =
        (g, (splitAtSigns (unspaced t.toList)).1) ::
          nonempty (splitAtSigns (unspaced t.toList)).2 :=
      List.filter_cons_of_pos (by simpa using hfirst)
    have hunder : List.Forall₂ (fun piece t => Means piece.1 piece.2 t)
      (nonempty (piecesUnder .plus (unspaced t.toList))) vs := hvs
    rw [hcons, List.forall₂_cons_left_iff] at hunder
    obtain ⟨v, rest, hv, hrest, rfl⟩ := hunder
    refine ⟨v, rest, rfl, readTerms_sign (g := .minus) (by simp [Sign.toChar]) hs
      ⟨htext.alphabet, htext.closed, isTerm_nonempty_cons htext.terms⟩ hne ?_⟩
    rw [hcons]
    exact .cons hv.neg hrest

/-- The first text ends inside a number and in front of blanks, the second starts with blanks. -/
theorem readTerms_join_spaced :
    let us : List Term := [⟨.ofInt 2, 3, by decide⟩, ⟨-.ofScaled 5 1, 0, by decide⟩]
    let vs : List Term := [⟨.ofInt 7, 1, by decide⟩, ⟨-1, 0, by decide⟩]
    (readTerms "2x ^ 3 -. 5 ").outcome = .ok us ∧ (readTerms " 7x - 1").outcome = .ok vs ∧
      (readTerms ("2x ^ 3 -. 5 " ++ "+" ++ " 7x - 1")).outcome = .ok (us ++ vs) ∧
      ∃ v rest, vs = v :: rest ∧
        (readTerms ("2x ^ 3 -. 5 " ++ "-" ++ " 7x - 1")).outcome = .ok (us ++ -v :: rest) := by
  intro us vs
  have hs : (readTerms "2x ^ 3 -. 5 ").outcome = .ok us := by decide +kernel
  have ht : (readTerms " 7x - 1").outcome = .ok vs := by decide +kernel
  have hwritten : ∃ c ∈ " 7x - 1".toList, c ≠ ' ' := ⟨'7', by decide, by decide⟩
  obtain ⟨hplus, -, hminus, -⟩ := readTerms_join hs ht hwritten
  refine ⟨hs, ht, hplus, hminus fun c hc => ?_⟩
  obtain rfl : '7' = c := Option.some.inj hc
  decide

end DecimalPoly.Grammar
