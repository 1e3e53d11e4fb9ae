import DecimalPoly.Proofs.Journal
import DecimalPoly.Proofs.Text.Monomial

/-! Segments of a text. Signs and segments put together again are the text, and blanks change neither
where it is cut nor what a segment means: one without foreign characters is read as what it is without
its blanks. -/
namespace DecimalPoly.Reader

def unspaced (cs : List Char) : List Char := cs.filter fun c => !isBlank c

theorem splitAtSigns_sign {c : Char} {s : Sign} (h : Sign.ofChar? c = some s) (cs : List Char) :
    splitAtSigns (c :: cs) = ([], (s, (splitAtSigns cs).1) :: (splitAtSigns cs).2) := by
  simp [splitAtSigns, h]

theorem splitAtSigns_other {c : Char} (h : Sign.ofChar? c = none) (cs : List Char) :
    splitAtSigns (c :: cs) = (c :: (splitAtSigns cs).1, (splitAtSigns cs).2) := by
  simp [splitAtSigns, h]

theorem isBlank_of_sign {c : Char} {s : Sign} (h : Sign.ofChar? c = some s) : isBlank c = false := by
  rw [isBlank]
  by_cases hc : c = ' '
  · subst hc
    simp [Sign.ofChar?] at h
  · simpa using hc

theorem splitAtSigns_unspaced (cs : List Char) : splitAtSigns (unspaced cs) =
    (unspaced (splitAtSigns cs).1, (splitAtSigns cs).2.map (Prod.map id unspaced)) := by
  induction cs with
  | nil => rfl
  | cons c cs ih =>
    simp only [unspaced] at *
    cases hs : Sign.ofChar? c with
    | some s =>
      rw [List.filter_cons_of_pos (by simp [isBlank_of_sign hs]), splitAtSigns_sign hs,
        splitAtSigns_sign hs, ih]
      rfl
    | none =>
      rw [splitAtSigns_other hs]
      by_cases hb : isBlank c = true
      · rw [List.filter_cons_of_neg (by simpa using hb), ih, List.filter_cons_of_neg (by simpa using hb)]
      · rw [List.filter_cons_of_pos (by simpa using hb), splitAtSigns_other hs, ih,
          List.filter_cons_of_pos (by simpa using hb)]

theorem splitAtSigns_append {us : List Char} (h : ∀ c ∈ us, Sign.ofChar? c = none) (cs : List Char) :
    splitAtSigns (us ++ cs) = (us ++ (splitAtSigns cs).1, (splitAtSigns cs).2) := by
  induction us with
  | nil => rfl
  | cons c us ih =>
    obtain ⟨hc, hus⟩ := List.forall_mem_cons.mp h
    rw [List.cons_append, splitAtSigns_other hc, ih hus]
    rfl

theorem firstForeign?_eq_none {cs : List Char}
    (h : ∀ c ∈ cs, isNumeral c || isMarker c || isBlank c) (offset : Nat) :
    firstForeign? offset cs = none := by
  induction cs generalizing offset with
  | nil => rfl
  | cons c cs ih =>
    obtain ⟨hc, hcs⟩ := List.forall_mem_cons.mp h
    rw [firstForeign?, if_pos hc]
    exact ih hcs _

theorem ofChar?_toChar (s : Sign) : Sign.ofChar? s.toChar = some s := by
  cases s <;> rfl

theorem toChar_of_ofChar? {c : Char} {g : Sign} (h : Sign.ofChar? c = some g) : g.toChar = c := by
  simp only [Sign.ofChar?] at h
  split at h
  · cases h; rfl
  · cases h; rfl
  · cases h

theorem join_splitAtSigns (cs : List Char) : (splitAtSigns cs).1 ++
    (splitAtSigns cs).2.flatMap (fun piece => piece.1.toChar :: piece.2) = cs := by
  induction cs with
  | nil => rfl
  | cons c cs ih =>
    cases hs : Sign.ofChar? c with
    | some g =>
      have hc : g.toChar = c := toChar_of_ofChar? hs
      simp [splitAtSigns_sign hs, hc, ih]
    | none => simp [splitAtSigns_other hs, ih]

theorem ofChar?_of_mem_splitAtSigns (cs : List Char) :
    (∀ c ∈ (splitAtSigns cs).1, Sign.ofChar? c = none) ∧
      ∀ piece ∈ (splitAtSigns cs).2, ∀ c ∈ piece.2, Sign.ofChar? c = none := by
  induction cs with
  | nil => simp [splitAtSigns]
  | cons c cs ih =>
    obtain ⟨hhead, hrest⟩ := ih
    cases hs : Sign.ofChar? c with
    | some g => simpa [splitAtSigns_sign hs] using ⟨hhead, fun g piece => hrest (g, piece)⟩
    | none => simpa [splitAtSigns_other hs, hs] using ⟨hhead, fun g piece => hrest (g, piece)⟩

theorem ofChar?_eq_none {c : Char} : Sign.ofChar? c = none ↔ c ≠ '+' ∧ c ≠ '-' := by
  constructor
  · intro h
    constructor
    · intro hc
      rw [hc] at h
      cases h
    · intro hc
      rw [hc] at h
      cases h
  · intro h
    obtain ⟨hplus, hminus⟩ := h
    cases h : Sign.ofChar? c with
    | none => rfl
    | some g =>
      have hc := toChar_of_ofChar? h
      cases g with
      | plus => exact absurd hc.symm hplus
      | minus => exact absurd hc.symm hminus

theorem width_append (us vs : List Char) : width (us ++ vs) = width us + width vs := by
  induction us with
  | nil => exact (Nat.zero_add _).symm
  | cons c us ih => rw [List.cons_append, width, ih, width, Nat.add_assoc]

theorem width_eq (cs : List Char) : width cs = (String.ofList cs).utf8ByteSize := by
  induction cs with
  | nil => rfl
  | cons c cs ih =>
    rw [width, ih, String.ofList_cons, String.utf8ByteSize_append, String.utf8ByteSize_singleton]

theorem width_sign (g : Sign) (cs : List Char) : width (g.toChar :: cs) = width cs + 1 := by
  cases g with
  | plus => exact Nat.add_comm ..
  | minus => exact Nat.add_comm ..

def logTerm (g : Sign) (written : List Char) : Logged Term := do
  let t ← Logged.ofExcept (readTerm g written)
  Logged.note (.parsedTerm t)
  return t

theorem outcome_logTerm {g : Sign} {written : List Char} {t : Term} :
    (logTerm g written).outcome = .ok t ↔ readTerm g written = .ok t := by
  rw [logTerm]
  cases readTerm g written with
  | error e =>
    constructor
    · intro h
      cases h
    · intro h
      cases h
  | ok u => exact Iff.rfl

theorem outcome_logTerm_eq_error {g : Sign} {written : List Char} {e : Failure} :
    (logTerm g written).outcome = .error e ↔ readTerm g written = .error e := by
  rw [logTerm]
  cases readTerm g written with
  | error e' => exact Iff.rfl
  | ok t =>
    constructor
    · intro h
      cases h
    · intro h
      cases h

theorem readSegment_of_foreign {offset n : Nat} {g : Sign} {segment : List Char} {c : Char}
    (h : firstForeign? offset segment = some (c, n)) :
    readSegment offset g segment = Logged.fail (.invalidCharacter c n) := by
  rw [readSegment, h]

theorem readSegment_of_known {offset : Nat} {g : Sign} {segment : List Char}
    (h : firstForeign? offset segment = none) : readSegment offset g segment =
      if unspaced segment = [] then pure none else some <$> logTerm g (unspaced segment) := by
  rw [readSegment, h, unspaced]
  simp only
  cases segment.filter (fun c => !isBlank c) with
  | nil => rfl
  | cons c cs =>
    simp only [List.cons_ne_nil, if_false, logTerm, map_bind, map_pure]

end DecimalPoly.Reader
