import DecimalPoly.Proofs.Text.Acceptance
import DecimalPoly.Proofs.Text.Fault
import Mathlib.Data.List.Infix

/-! Which fault a text is rejected for, of all that it may have. A segment is judged at the sign that
ends it, a character with no place in a text at once and the last segment at the end, so the first
fault in this order is the one that is reported. -/
namespace DecimalPoly.Grammar
open Reader Plain

def ended (pieces : List (Sign × List Char)) : List (Sign × List Char) := nonempty pieces.dropLast

/-- The text up to its first character outside of the alphabet, with the pieces that signs cut it
into. -/
structure Layout (text clean rest : List Char) (pieces : List (Sign × List Char)) : Prop where
  joined : clean ++ rest = text
  alphabet : ∀ c ∈ clean, InAlphabet c
  stop : ∀ c ∈ rest.head?, ¬InAlphabet c
  cut : Cut .plus (clean.filter (· ≠ ' ')) pieces

/-- The failure that a text is rejected with. Offsets are in bytes. -/
inductive Blamed (text : List Char) : Failure → Prop where
  | ended {clean rest : List Char} {pieces before after : List (Sign × List Char)}
      {piece : Sign × List Char} {e : Failure} (layout : Layout text clean rest pieces)
      (first : ended pieces = before ++ piece :: after) (sound : ∀ p ∈ before, IsTerm p.2)
      (fault : Fault piece.1 piece.2 e) : Blamed text e
  | foreign {clean rest : List Char} {pieces : List (Sign × List Char)} {c : Char}
      (layout : Layout text clean (c :: rest) pieces) (sound : ∀ p ∈ ended pieces, IsTerm p.2) :
      Blamed text (.invalidCharacter c (String.ofList clean).utf8ByteSize)
  | sign {before blanks : List Char} {pieces : List (Sign × List Char)} {g : Sign}
      (layout : Layout text (before ++ g.toChar :: blanks) [] pieces)
      (blank : ∀ c ∈ blanks, c = ' ') (sound : ∀ p ∈ ended pieces, IsTerm p.2) :
      Blamed text (.invalidCharacter g.toChar (String.ofList before).utf8ByteSize)
  | last {pieces : List (Sign × List Char)} {piece : Sign × List Char} {e : Failure}
      (layout : Layout text text [] pieces) (sound : ∀ p ∈ ended pieces, IsTerm p.2)
      (last : pieces.getLast? = some piece) (fault : Fault piece.1 piece.2 e) : Blamed text e

section Cuts
variable {g : Sign} {cs : List Char} {pieces : List (Sign × List Char)}

theorem SignFree.ofChar? (h : SignFree cs) : ∀ c ∈ cs, Sign.ofChar? c = none :=
  fun c hc => ofChar?_eq_none.mpr (h c hc)

theorem unspaced_sign (g : Sign) (cs : List Char) :
    unspaced (g.toChar :: cs) = g.toChar :: unspaced cs := by
  cases g with
  | plus => rfl
  | minus => rfl

theorem unspaced_eq_nil : unspaced cs = [] ↔ ∀ c ∈ cs, c = ' ' := by
  rw [← filter_eq_unspaced]
  simp

theorem unspaced_append (us vs : List Char) : unspaced (us ++ vs) = unspaced us ++ unspaced vs :=
  List.filter_append us vs

theorem SignFree.unspaced (h : SignFree cs) : SignFree (unspaced cs) :=
  fun c hc => h c (List.mem_of_mem_filter hc)

theorem Cut.unspaced (h : Cut g cs pieces) : Cut g (unspaced cs) (pieces.map unspacedPiece) := by
  induction h with
  | last free => exact .last free.unspaced
  | @next g g' piece cs pieces free more ih =>
    rw [unspaced_append, unspaced_sign]
    exact .next free.unspaced ih

end Cuts

section Run
variable {cs segment tail : List Char} {pieces : List (Sign × List Char)} {g : Sign}

def logTerms (pieces : List (Sign × List Char)) : Logged (List Term) :=
  pieces.mapM fun piece => logTerm piece.1 piece.2

theorem logTerms_append (pieces more : List (Sign × List Char)) : logTerms (pieces ++ more) =
    logTerms pieces >>= fun ts => (ts ++ ·) <$> logTerms more := by
  rw [logTerms, List.mapM_append]
  simp only [bind_pure_comp]
  rfl

theorem nonempty_cons (piece : Sign × List Char) (pieces : List (Sign × List Char)) :
    nonempty (piece :: pieces) = nonempty [piece] ++ nonempty pieces := by
  rw [nonempty, ← List.singleton_append, List.filter_append]
  rfl

theorem run_known (free : SignFree segment) (known : ∀ c ∈ segment, InAlphabet c)
    (sign : Option Sign) (origin position : Nat) (found : List Term) (rest : List Char) :
    (Scanner.within sign origin found []).run Pending.log position (segment ++ rest) =
      (Scanner.within sign origin found (unspaced segment)).run Pending.log
        (position + width segment) rest := by
  have hknown : firstForeign? position segment = none :=
    firstForeign?_eq_none (fun c hc => (isKnown_iff (free.ofChar? c hc)).mpr (known c hc)) position
  rw [Scanner.run_within _ _ _ _ free.ofChar?, hknown]
  rfl

theorem run_segment (free : SignFree segment) (known : ∀ c ∈ segment, InAlphabet c)
    (sign : Option Sign) (g : Sign) (origin position : Nat) (found : List Term)
    (rest : List Char) :
    (Scanner.within sign origin found []).run Pending.log position (segment ++ g.toChar :: rest) =
      logTerms (nonempty [unspacedPiece (sign.getD .plus, segment)]) >>= fun ts =>
        (Scanner.within (some g) (position + width segment + 1) (found ++ ts) []).run Pending.log
          (position + width segment + 1) rest := by
  rw [run_known free known, Scanner.run_sign, Scanner.flush_within]
  by_cases hblank : unspaced segment = []
  · rw [if_pos hblank, nonempty_of_blank _ _ hblank]
    simp [nonempty, logTerms]
  · rw [if_neg hblank, nonempty_of_written _ _ hblank]
    simp [nonempty, logTerms, bind_map_left]

theorem run_closed (h : Cut g cs pieces) (known : ∀ c ∈ cs, InAlphabet c) (sign : Option Sign)
    (hsign : sign.getD .plus = g) (g' : Sign) (origin position : Nat) (found : List Term) :
    (Scanner.within sign origin found []).run Pending.log position (cs ++ [g'.toChar]) =
      (fun ts => Scanner.within (some g') (position + width cs + 1) (found ++ ts) []) <$>
        logTerms (nonempty (pieces.map unspacedPiece)) := by
  induction h generalizing sign origin position found with
  | last free =>
    subst hsign
    rw [run_segment free known]
    simp only [Scanner.run, bind_pure_comp, List.map_cons, List.map_nil]
  | @next g g'' piece cs pieces free more ih =>
    obtain ⟨hpiece, hcs⟩ := List.forall_mem_append.mp known
    obtain ⟨-, hcs⟩ := List.forall_mem_cons.mp hcs
    subst hsign
    have hwidth : position + width piece + 1 + width cs + 1 =
        position + width (piece ++ g''.toChar :: cs) + 1 := by
      rw [width_append, width_sign]
      omega
    have hterms : logTerms (nonempty (((sign.getD .plus, piece) :: pieces).map unspacedPiece)) =
        logTerms (nonempty [unspacedPiece (sign.getD .plus, piece)]) >>= fun ts =>
          (ts ++ ·) <$> logTerms (nonempty (pieces.map unspacedPiece)) := by
      rw [List.map_cons, nonempty_cons, logTerms_append]
    -- behind its sign the next segment starts, with the terms that were made before it
    have hrest := ih hcs (some g'') rfl
    rw [List.append_assoc, List.cons_append, run_segment free hpiece, hterms, map_bind]
    simp only [hrest, hwidth, Functor.map_map, List.append_assoc]

/-- The part of a text behind its last sign, with the sign and where the part starts. -/
inductive Ending : List Char → Option Sign → Nat → List Char → Prop where
  | unsigned {cs : List Char} (free : SignFree cs) : Ending cs none 0 cs
  | signed (before : List Char) (g : Sign) {tail : List Char} (free : SignFree tail) :
      Ending (before ++ g.toChar :: tail) (some g) (width before + 1) tail

theorem exists_ending (cs : List Char) : ∃ sign origin tail, Ending cs sign origin tail := by
  induction cs with
  | nil => exact ⟨none, 0, [], .unsigned (List.forall_mem_nil _)⟩
  | cons c cs ih =>
    obtain ⟨sign, origin, tail, h⟩ := ih
    cases h with
    | signed before g free => exact ⟨_, _, _, .signed (c :: before) g free⟩
    | unsigned free =>
      cases hs : Sign.ofChar? c with
      | some g =>
        rw [← toChar_of_ofChar? hs]
        exact ⟨_, _, _, .signed [] g free⟩
      | none =>
        exact ⟨_, _, _, .unsigned (List.forall_mem_cons.mpr ⟨ofChar?_eq_none.mp hs, free⟩)⟩

theorem Ending.run {sign : Option Sign} {origin : Nat} (h : Ending cs sign origin tail)
    (known : ∀ c ∈ cs, InAlphabet c) (cut : Cut .plus (cs.filter (· ≠ ' ')) pieces) :
    pieces.getLast? = some (sign.getD .plus, unspaced tail) ∧
      Scanner.start.run Pending.log 0 cs =
        (fun ts => Scanner.within sign origin ts (unspaced tail)) <$> logTerms (ended pieces) := by
  rw [filter_eq_unspaced, cut_iff] at cut
  have hstart : Scanner.start = Scanner.within none 0 [] [] := rfl
  cases h with
  | unsigned free =>
    have hlast : Cut .plus cs [(.plus, cs)] := .last free
    rw [← cut_iff.mp hlast.unspaced] at cut
    subst cut
    have hrun := run_known free known none 0 0 [] []
    rw [List.append_nil] at hrun
    exact ⟨rfl, hrun⟩
  | signed before g free =>
    obtain ⟨hbefore, htail⟩ := List.forall_mem_append.mp known
    obtain ⟨-, htail⟩ := List.forall_mem_cons.mp htail
    obtain ⟨closed, hcut⟩ : ∃ closed, Cut .plus before closed := ⟨_, cut_splitAtSigns ..⟩
    rw [← cut_iff.mp (hcut.append (.last free)).unspaced, List.map_append] at cut
    subst cut
    refine ⟨List.getLast?_concat .., ?_⟩
    -- the last sign closes all segments in front of it, and none ends the tail
    have hclosed := run_closed hcut hbefore none rfl g 0 0 []
    have hend (ts : List Term) (position : Nat) :=
      run_known free htail (some g) (width before + 1) position ts []
    have hended : ended (closed.map unspacedPiece ++ [(g, tail)].map unspacedPiece) =
        nonempty (closed.map unspacedPiece) := congrArg nonempty (List.dropLast_concat ..)
    simp only [List.append_nil] at hend
    rw [List.append_cons, Scanner.run_append, hstart, hclosed, hended, bind_map_left]
    simp only [Nat.zero_add, List.nil_append, hend, Scanner.run, bind_pure_comp]

end Run

section Verdict
variable {text clean rest tail : List Char} {pieces : List (Sign × List Char)}
variable {sign : Option Sign} {origin : Nat} {e : Failure}

theorem run_foreign {c : Char} (h : ¬InAlphabet c) (s : Scanner Term) (position : Nat)
    (more : List Char) :
    s.run Pending.log position (c :: more) = Logged.fail (.invalidCharacter c position) := by
  have hsign : Sign.ofChar? c = none := by
    refine ofChar?_eq_none.mpr ⟨?_, ?_⟩
    · intro hc
      exact h (hc ▸ inAlphabet_toChar .plus)
    · intro hc
      exact h (hc ▸ inAlphabet_toChar .minus)
  have hunknown : ¬IsKnown c := fun hc => h ((isKnown_iff hsign).mp hc)
  obtain ⟨⟨hnumeral, hmarker⟩, hblank⟩ :
      (isNumeral c = false ∧ isMarker c = false) ∧ isBlank c = false := by
    simpa [IsKnown] using hunknown
  rw [Scanner.run, Scanner.step, hblank, hsign]
  simp only [hnumeral, hmarker, Bool.false_eq_true, if_false]
  rfl

section
variable (known : ∀ piece ∈ pieces, ∀ c ∈ piece.2, isNumeral c = true ∨ isMarker c = true)
include known

theorem exists_outcome_logTerms_iff :
    (∃ ts, (logTerms pieces).outcome = .ok ts) ↔ ∀ piece ∈ pieces, IsTerm piece.2 := by
  rw [logTerms, Logged.exists_outcome_mapM_iff]
  simp only [outcome_logTerm]
  exact forall_congr' fun piece => forall_congr' fun hpiece => exists_readTerm_iff (known piece hpiece)

theorem outcome_logTerms_eq_error : (logTerms pieces).outcome = .error e ↔
    ∃ before piece after, pieces = before ++ piece :: after ∧ (∀ p ∈ before, IsTerm p.2) ∧
      Fault piece.1 piece.2 e := by
  rw [logTerms, Logged.outcome_mapM_eq_error]
  refine exists_congr fun before => exists_congr fun piece => exists_congr fun after =>
    and_congr_right fun hpieces => ?_
  subst hpieces
  obtain ⟨hbefore, hpiece⟩ := List.forall_mem_append.mp known
  rw [outcome_logTerm_eq_error, readTerm_eq_error (List.forall_mem_cons.mp hpiece).1,
    ← exists_outcome_logTerms_iff hbefore, logTerms, Logged.exists_outcome_mapM_iff]

end

theorem exists_layout (text : List Char) : ∃ clean rest pieces, Layout text clean rest pieces := by
  refine ⟨text.takeWhile (InAlphabet ·), text.dropWhile (InAlphabet ·), _, ?_, ?_, ?_,
    cut_splitAtSigns ..⟩
  · exact List.takeWhile_append_dropWhile
  · intro c hc
    simpa using List.mem_takeWhile_imp hc
  · intro c hc
    have hstop := List.head?_dropWhile_not (InAlphabet ·) text
    rw [hc] at hstop
    simpa using hstop

theorem Layout.known (layout : Layout text clean rest pieces) :
    ∀ piece ∈ pieces, ∀ c ∈ piece.2, isNumeral c = true ∨ isMarker c = true := by
  have hcut := cut_iff.mp layout.cut
  rw [filter_eq_unspaced] at hcut
  intro piece hpiece
  rw [hcut] at hpiece
  exact known_of_mem_unspaced layout.alphabet hpiece

theorem Layout.known_ended (layout : Layout text clean rest pieces) :
    ∀ piece ∈ ended pieces, ∀ c ∈ piece.2, isNumeral c = true ∨ isMarker c = true :=
  fun piece hpiece => layout.known piece (List.mem_of_mem_dropLast (List.mem_of_mem_filter hpiece))

/-- What is told when all segments before the last one are terms: `written` is what the last one has
up to `position`, where `rest` starts. -/
inductive Told (sign : Option Sign) (origin : Nat) (written : List Char) (position : Nat) :
    List Char → Failure → Prop where
  | foreign (c : Char) (more : List Char) :
      Told sign origin written position (c :: more) (.invalidCharacter c position)
  | sign {g : Sign} (unclosed : sign = some g) (blank : written = []) :
      Told sign origin written position [] (.invalidCharacter g.toChar (origin - 1))
  | last {e : Failure} (fault : Fault (sign.getD .plus) written e) :
      Told sign origin written position [] e

section
variable {written : List Char}

theorem told_nil_iff {position : Nat} : Told sign origin written position [] e ↔
    (written = [] ∧ ∃ g, sign = some g ∧ e = .invalidCharacter g.toChar (origin - 1)) ∨
      Fault (sign.getD .plus) written e := by
  constructor
  · intro h
    cases h with
    | sign hopen hblank => exact .inl ⟨hblank, _, hopen, rfl⟩
    | last hfault => exact .inr hfault
  · intro h
    cases h with
    | inl h =>
      obtain ⟨hblank, g, hopen, rfl⟩ := h
      exact .sign hopen hblank
    | inr hfault => exact .last hfault

theorem told_cons_iff {c : Char} {more : List Char} {position : Nat} :
    Told sign origin written position (c :: more) e ↔ e = .invalidCharacter c position := by
  constructor
  · intro h
    cases h
    rfl
  · intro h
    rw [h]
    exact .foreign c more

theorem Layout.outcome_rest (layout : Layout text clean rest pieces)
    (known : ∀ c ∈ written, isNumeral c = true ∨ isMarker c = true) (position : Nat)
    (found : List Term) :
    ((Scanner.within sign origin found written).run Pending.log position rest >>=
      Scanner.finish Pending.log).outcome = .error e ↔ Told sign origin written position rest e := by
  -- the scanner stops at a foreign character, and without one ends the last segment
  cases rest with
  | cons c more =>
    have hfail : ((Logged.fail (.invalidCharacter c position) : Logged (Scanner Term)) >>=
        Scanner.finish Pending.log).outcome = .error (.invalidCharacter c position) := rfl
    rw [run_foreign (layout.stop c rfl), hfail, told_cons_iff, Except.error.injEq, eq_comm]
  | nil =>
    rw [Scanner.run, pure_bind, Scanner.finish_within, told_nil_iff]
    by_cases hwritten : written = []
    · subst hwritten
      rw [if_pos rfl, or_iff_left not_fault_nil]
      cases sign with
      | none => simp [Pure.pure]
      | some g => simp [Logged.outcome_fail_eq_error]
    · rw [if_neg hwritten, Logged.outcome_map_eq_error, outcome_logTerm_eq_error,
        readTerm_eq_error known]
      simp [hwritten]

end

theorem Layout.run (layout : Layout text clean rest pieces)
    (ending : Ending clean sign origin tail) : Scanner.start.run Pending.log 0 text =
      logTerms (ended pieces) >>= fun ts =>
        (Scanner.within sign origin ts (unspaced tail)).run Pending.log (width clean) rest := by
  rw [← layout.joined, Scanner.run_append, (ending.run layout.alphabet layout.cut).2, bind_map_left,
    Nat.zero_add]

theorem Layout.outcome_eq_error {text : String} (layout : Layout text.toList clean rest pieces)
    (ending : Ending clean sign origin tail) : (readTerms text).outcome = .error e ↔
      (∃ before piece after, ended pieces = before ++ piece :: after ∧
        (∀ p ∈ before, IsTerm p.2) ∧ Fault piece.1 piece.2 e) ∨
      (∀ piece ∈ ended pieces, IsTerm piece.2) ∧
        Told sign origin (unspaced tail) (width clean) rest e := by
  obtain ⟨hlast, -⟩ := ending.run layout.alphabet layout.cut
  have hknown := layout.known _ (List.mem_of_getLast? hlast)
  have hread : (readTerms text).outcome = .error e ↔
      (Scanner.start.run Pending.log 0 text.toList >>= Scanner.finish Pending.log).outcome =
        .error e := by
    rw [readTerms_eq, Logged.outcome_bind_eq_error]
    -- the record of the whole text is no failure
    refine or_iff_left ?_
    intro hnote
    obtain ⟨ts, -, hnote⟩ := hnote
    cases hnote
  rw [hread, layout.run ending, bind_assoc, Logged.outcome_bind_eq_error,
    outcome_logTerms_eq_error layout.known_ended, ← exists_outcome_logTerms_iff layout.known_ended]
  simp only [layout.outcome_rest hknown, exists_and_right]

variable {source : String}

theorem blamed_of_outcome (h : (readTerms source).outcome = .error e) :
    Blamed source.toList e := by
  obtain ⟨clean, rest, pieces, layout⟩ := exists_layout source.toList
  obtain ⟨sign, origin, tail, ending⟩ := exists_ending clean
  obtain ⟨hlast, -⟩ := ending.run layout.alphabet layout.cut
  cases (layout.outcome_eq_error ending).mp h with
  | inl hended =>
    obtain ⟨before, piece, after, hfirst, hsound, hfault⟩ := hended
    exact .ended layout hfirst hsound hfault
  | inr hrest =>
    obtain ⟨hsound, htold⟩ := hrest
    cases htold with
    | foreign c more =>
      rw [width_eq]
      exact .foreign layout hsound
    | sign hsign hblank =>
      cases ending with
      | unsigned free => cases hsign
      | signed before g free =>
        cases hsign
        -- the segment starts right behind its sign
        rw [Nat.add_sub_cancel, width_eq]
        exact .sign layout (unspaced_eq_nil.mp hblank) hsound
    | last hfault =>
      obtain rfl : clean = source.toList := by simpa using layout.joined
      exact .last layout hsound hlast hfault

theorem Blamed.outcome (h : Blamed source.toList e) : (readTerms source).outcome = .error e := by
  cases h with
  | @ended clean rest pieces before after piece e layout hfirst hsound hfault =>
    obtain ⟨sign, origin, tail, ending⟩ := exists_ending clean
    exact (layout.outcome_eq_error ending).mpr (.inl ⟨_, _, _, hfirst, hsound, hfault⟩)
  | @foreign clean rest pieces c layout hsound =>
    obtain ⟨sign, origin, tail, ending⟩ := exists_ending clean
    rw [← width_eq]
    exact (layout.outcome_eq_error ending).mpr (.inr ⟨hsound, .foreign c rest⟩)
  | @sign before blanks pieces g layout hblank hsound =>
    have hfree : SignFree blanks := by
      intro c hc
      rw [hblank c hc]
      decide
    have hnothing : unspaced blanks = [] := unspaced_eq_nil.mpr hblank
    rw [← width_eq]
    exact (layout.outcome_eq_error (.signed before g hfree)).mpr (.inr ⟨hsound, .sign rfl hnothing⟩)
  | @last pieces piece e layout hsound hpiece hfault =>
    obtain ⟨sign, origin, tail, ending⟩ := exists_ending source.toList
    obtain ⟨hlast, -⟩ := ending.run layout.alphabet layout.cut
    obtain rfl := Option.some_inj.mp (hpiece.symm.trans hlast)
    exact (layout.outcome_eq_error ending).mpr (.inr ⟨hsound, .last hfault⟩)

end Verdict

/-- A text is rejected for the first segment that is no term among those that a sign ends before the
first foreign character; without one for that character, with its offset; without that for a sign that
only blanks follow; and without that for its last segment. The scanner that goes through the text once
tells the same. -/
theorem readTerms_rejection (text : String) (e : Failure) :
    ((readTerms text).outcome = .error e ↔ Blamed text.toList e) ∧
      ((SparsePoly.read text).outcome = .error e ↔ Blamed text.toList e) ∧
      Noted.WritesOut Row.ofTerms (scan text) (readTerms text) := by
  have hread : (readTerms text).outcome = .error e ↔ Blamed text.toList e :=
    ⟨blamed_of_outcome, Blamed.outcome⟩
  refine ⟨hread, ?_, writesOut_scan text⟩
  rw [SparsePoly.read, Logged.outcome_map_eq_error, hread]

/-- The number in front is not judged before its sign, and the character comes first. -/
example : (readTerms "1.2.3y + .").outcome = .error (.invalidCharacter 'y' 5) := by
  decide +kernel

end DecimalPoly.Grammar
