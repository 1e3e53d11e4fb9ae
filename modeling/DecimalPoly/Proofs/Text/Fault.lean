import DecimalPoly.Proofs.Text.Grammar

/-! What is wrong with a segment that is no term. The coefficient is judged first, and is told as it is
written; behind a sound one the exponent is told, together with the coefficient under its sign. -/
namespace DecimalPoly.Grammar
open Reader

/-- The fault of a segment, as the failure that reports it. -/
inductive Fault (sign : Sign) (segment : List Char) : Failure → Prop where
  | coefficient {front rest : List Char} (split : Split segment front rest)
      (written : front ≠ []) (bad : ¬IsNumeral front) :
      Fault sign segment (.invalidNumber (String.ofList front))
  | exponent {front rest : List Char} {d : Decimal} (split : Split segment front rest)
      (good : IsMagnitude front)
      (value : d.toRat = if sign = .minus then -magnitude front else magnitude front)
      (bad : ¬IsPower rest) :
      Fault sign segment (.invalidTerm d.text (String.ofList (exponentChars rest)))

section Parts
variable {cs rest : List Char} {e : Failure}

theorem eq_of_read_eq_error {s : String} (h : Decimal.read s = .error e) : e = .invalidNumber s := by
  rw [Decimal.read] at h
  cases hread : Decimal.ofText? s with
  | none =>
    rw [hread] at h
    cases h
    rfl
  | some d =>
    rw [hread] at h
    cases h

theorem readMagnitude_eq_error (h : ∀ c ∈ cs, isNumeral c = true) : readMagnitude cs = .error e ↔
    ¬IsMagnitude cs ∧ e = .invalidNumber (String.ofList cs) := by
  have hone (e : Failure) (he : readMagnitude cs = .error e) :
      e = .invalidNumber (String.ofList cs) := by
    rw [readMagnitude] at he
    split at he
    · cases he
    · exact eq_of_read_eq_error he
  have hvalue := exists_toRat_magnitude h
  rw [eq_error_iff hone]
  simp only [readMagnitude_iff h, exists_and_left, hvalue, and_true]

theorem readExponent_eq_error (h : ∀ c ∈ rest, isNumeral c = true ∨ isMarker c = true)
    {coefficient : Decimal} :
    readExponent coefficient (!rest.isEmpty) (rest.filter isNumeral) = .error e ↔
      ¬IsPower rest ∧ e = .invalidTerm coefficient.text (String.ofList (exponentChars rest)) := by
  have hdigits : ∀ c ∈ exponentChars rest, isNumeral c = true := by
    rw [exponentChars_of_known h]
    exact fun c hc => (List.mem_filter.mp hc).2
  rw [← exponentChars_of_known h]
  have hone (e : Failure)
      (he : readExponent coefficient (!rest.isEmpty) (exponentChars rest) = .error e) :
      e = .invalidTerm coefficient.text (String.ofList (exponentChars rest)) := by
    rw [readExponent] at he
    split at he
    · cases he
    · cases hread : Decimal.read (String.ofList (exponentChars rest)) >>= Decimal.toExponent with
      | error e' =>
        rw [hread] at he
        cases he
        rfl
      | ok n =>
        rw [hread] at he
        cases he
  have hpower : (∃ n, readExponent coefficient (!rest.isEmpty) (exponentChars rest) = .ok n) ↔
      IsPower rest := by
    simp only [readExponent_iff hdigits, exists_and_left]
    rw [← IsPower, and_iff_left_iff_imp]
    intro hp
    simpa [power] using exists_power hp
  rw [eq_error_iff hone, hpower]

end Parts

section Segments
variable {segment : List Char} {g : Sign} {e : Failure}

theorem toRat_apply_magnitude (g : Sign) {m : Decimal} {v : ℚ} (h : m.toRat = v) :
    (g.apply m).toRat = if g = .minus then -v else v := by
  rw [toRat_apply, h]
  cases g with
  | plus => rfl
  | minus => exact (neg_neg v).symm

section
variable (h : ∀ c ∈ segment, isNumeral c = true ∨ isMarker c = true)
include h

theorem exists_readTerm_iff : (∃ t, readTerm g segment = .ok t) ↔ IsTerm segment := by
  simp only [readTerm_iff h, exists_and_left]
  exact and_iff_left_of_imp fun hterm => exists_means hterm g

theorem readTerm_eq_error : readTerm g segment = .error e ↔ Fault g segment e := by
  have hfront : ∀ c ∈ segment.takeWhile isNumeral, isNumeral c = true :=
    fun c hc => List.mem_takeWhile_imp hc
  have hrest : ∀ c ∈ segment.dropWhile isNumeral, isNumeral c = true ∨ isMarker c = true :=
    fun c hc => h c ((List.dropWhile_sublist _).mem hc)
  rw [readTerm]
  simp only [bind_eq_error, readMagnitude_eq_error hfront, readMagnitude_iff hfront,
    readExponent_eq_error hrest]
  constructor
  · intro hread
    cases hread with
    | inl hm =>
      obtain ⟨hbad, rfl⟩ := hm
      obtain ⟨hwritten, hnumeral⟩ := not_or.mp hbad
      exact .coefficient (split_of_known h) hwritten hnumeral
    | inr hn =>
      obtain ⟨m, ⟨hgood, hm⟩, hn⟩ := hn
      cases hn with
      | inl hn =>
        obtain ⟨hbad, rfl⟩ := hn
        exact .exponent (split_of_known h) hgood (toRat_apply_magnitude g hm) hbad
      | inr hn =>
        obtain ⟨n, -, hn⟩ := hn
        cases hn
  · intro hfault
    cases hfault with
    | coefficient hsplit hwritten hbad =>
      rw [hsplit.eq.1]
      exact .inl ⟨not_or.mpr ⟨hwritten, hbad⟩, rfl⟩
    | exponent hsplit hgood hvalue hbad =>
      rw [hsplit.eq.1, hsplit.eq.2]
      -- the magnitude that was read is the coefficient under its sign once more
      refine .inr ⟨_, ⟨hgood, (toRat_apply g).mpr hvalue⟩, .inl ⟨hbad, ?_⟩⟩
      rw [sign_apply_apply]

end

theorem not_fault_nil : ¬Fault g [] e := by
  intro h
  have hread := (readTerm_eq_error (by simp)).mpr h
  cases g <;> cases hread

end Segments

end DecimalPoly.Grammar
