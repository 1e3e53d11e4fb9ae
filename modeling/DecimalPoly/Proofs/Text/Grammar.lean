import DecimalPoly.Proofs.Journal
import DecimalPoly.Proofs.Text.Monomial
import Mathlib.Data.List.TakeWhile

/-! The grammar of terms, and the numbers that its words stand for. A segment of a text is a term
when it splits into a coefficient and, from the first marker on, an exponent; the reader takes
the terms of the grammar, with the meaning they have there, and no others. -/
namespace DecimalPoly.Grammar
open Reader

structure IsPositional (cs : List Char) : Prop where
  digit : ∃ c ∈ cs, c.isDigit = true
  point : cs.count '.' ≤ 1

/-- What is read as a number: behind the point stand no more digits than a scale can count. -/
structure IsNumeral (cs : List Char) : Prop extends IsPositional cs where
  places : (Decimal.fraction cs).length ≤ maxScale

/-- The number with the digits up to the point before it and the others behind it. -/
def numeralValue (cs : List Char) : ℚ :=
  let whole := cs.takeWhile Char.isDigit
  let fraction := (cs.dropWhile Char.isDigit).drop 1
  Nat.ofDigitChars 10 whole 0 + Nat.ofDigitChars 10 fraction 0 / 10 ^ fraction.length

structure Split (segment front rest : List Char) : Prop where
  joined : front ++ rest = segment
  numerals : ∀ c ∈ front, c.isDigit = true ∨ c = '.'
  marker : ∀ c, rest.head? = some c → c = 'x' ∨ c = '^'

/-- Markers count for nothing between the digits of an exponent. -/
def exponentChars (rest : List Char) : List Char := rest.filter fun c => c ≠ 'x' ∧ c ≠ '^'

def IsMagnitude (front : List Char) : Prop := front = [] ∨ IsNumeral front

def IsPower (rest : List Char) : Prop :=
  exponentChars rest = [] ∨
    IsNumeral (exponentChars rest) ∧
      ∃ e : ℕ, e ≤ maxExponent ∧ numeralValue (exponentChars rest) = e

def magnitude (front : List Char) : ℚ := if front = [] then 1 else numeralValue front

def power (rest : List Char) : ℚ :=
  if exponentChars rest ≠ [] then numeralValue (exponentChars rest)
  else if rest ≠ [] then 1 else 0

def IsTerm (segment : List Char) : Prop :=
  ∃ front rest, Split segment front rest ∧ IsMagnitude front ∧ IsPower rest

def Means (sign : Sign) (segment : List Char) (t : Term) : Prop :=
  ∃ front rest, Split segment front rest ∧
    t.coefficient.toRat = (if sign = .minus then -magnitude front else magnitude front) ∧
    t.exponent = power rest

section Numerals
variable {cs ds es : List Char}

theorem digits_or_point (h : ∀ c ∈ cs, isNumeral c = true) :
    (∀ c ∈ cs, c.isDigit = true) ∨
      ∃ ds es, cs = ds ++ '.' :: es ∧ ∀ c ∈ ds, c.isDigit = true := by
  induction cs with
  | nil => exact .inl (by simp)
  | cons c cs ih =>
    obtain ⟨hc, hcs⟩ := List.forall_mem_cons.mp h
    cases isNumeral_iff.mp hc with
    | inr hpoint => exact .inr ⟨[], cs, by simp [hpoint], by simp⟩
    | inl hdigit =>
      cases ih hcs with
      | inl hall => exact .inl (List.forall_mem_cons.mpr ⟨hdigit, hall⟩)
      | inr hcut =>
        obtain ⟨ds, es, rfl, hds⟩ := hcut
        exact .inr ⟨c :: ds, es, rfl, List.forall_mem_cons.mpr ⟨hdigit, hds⟩⟩

theorem count_point_digits (h : ∀ c ∈ ds, c.isDigit = true) : ds.count '.' = 0 :=
  List.count_eq_zero.mpr fun hmem => Decimal.isDigit_ne_point (h _ hmem) rfl

theorem isPositional_digits (h : ∀ c ∈ ds, c.isDigit = true) : IsPositional ds ↔ ds ≠ [] := by
  constructor
  · intro hn hnil
    obtain ⟨c, hc, -⟩ := hn.digit
    rw [hnil] at hc
    cases hc
  · intro hne
    obtain ⟨c, hc⟩ := List.exists_mem_of_ne_nil ds hne
    exact ⟨⟨c, hc, h c hc⟩, by rw [count_point_digits h]; omega⟩

theorem isPositional_point (h : ∀ c ∈ ds, c.isDigit = true) (hes : ∀ c ∈ es, isNumeral c = true) :
    IsPositional (ds ++ '.' :: es) ↔ ds ++ es ≠ [] ∧ ∀ c ∈ ds ++ es, c.isDigit = true := by
  have hcount : (ds ++ '.' :: es).count '.' = es.count '.' + 1 := by
    rw [List.count_append, count_point_digits h, List.count_cons_self, zero_add]
  constructor
  · intro hn
    obtain ⟨⟨c, hc, hdigit⟩, hpoint⟩ := hn
    have hnone : '.' ∉ es := List.count_eq_zero.mp (by omega)
    have hmem : c ∈ ds ++ es := by
      have hne := Decimal.isDigit_ne_point hdigit
      simpa [hne] using hc
    refine ⟨List.ne_nil_of_mem hmem, fun c hc => ?_⟩
    cases List.mem_append.mp hc with
    | inl hds => exact h c hds
    | inr hmem =>
      exact (isNumeral_iff.mp (hes c hmem)).resolve_right fun hpoint => hnone (hpoint ▸ hmem)
  · intro hn
    obtain ⟨hne, hall⟩ := hn
    obtain ⟨c, hc⟩ := List.exists_mem_of_ne_nil _ hne
    refine ⟨⟨c, ?_, hall c hc⟩, ?_⟩
    · rw [List.mem_append] at hc
      rw [List.mem_append, List.mem_cons]
      exact hc.imp id .inr
    · rw [hcount, count_point_digits fun c hc => hall c (List.mem_append_right _ hc)]

theorem isNumeral_digits (h : ∀ c ∈ ds, c.isDigit = true) : IsNumeral ds ↔ ds ≠ [] := by
  have hplaces : (Decimal.fraction ds).length ≤ maxScale := by
    rw [Decimal.fraction_digits h]
    exact Nat.zero_le _
  rw [← isPositional_digits h]
  exact ⟨fun hn => hn.toIsPositional, fun hn => ⟨hn, hplaces⟩⟩

theorem isNumeral_point (h : ∀ c ∈ ds, c.isDigit = true) (hes : ∀ c ∈ es, isNumeral c = true) :
    IsNumeral (ds ++ '.' :: es) ↔
      (ds ++ es ≠ [] ∧ ∀ c ∈ ds ++ es, c.isDigit = true) ∧ es.length ≤ maxScale := by
  have hplaces := congrArg List.length (Decimal.fraction_point h es)
  rw [← isPositional_point h hes, ← hplaces]
  exact ⟨fun hn => ⟨hn.toIsPositional, hn.places⟩, fun hn => ⟨hn.1, hn.2⟩⟩

theorem numeralValue_digits (h : ∀ c ∈ ds, c.isDigit = true) :
    (Decimal.ofScaled (Nat.ofDigitChars 10 ds 0) 0).toRat = numeralValue ds := by
  rw [numeralValue, List.takeWhile_eq_self_iff.mpr h, List.dropWhile_eq_nil_iff.mpr h]
  simp

theorem numeralValue_point (h : ∀ c ∈ ds, c.isDigit = true) :
    (Decimal.ofScaled (Nat.ofDigitChars 10 (ds ++ es) 0) es.length).toRat =
      numeralValue (ds ++ '.' :: es) := by
  have hpoint : Char.isDigit '.' = false := rfl
  rw [numeralValue, List.takeWhile_append_of_pos h, List.dropWhile_append_of_pos h,
    List.takeWhile_cons_of_neg (by simp [hpoint]), List.dropWhile_cons_of_neg (by simp [hpoint])]
  rw [Decimal.toRat_ofScaled, Nat.ofDigitChars_append, Nat.ofDigitChars_eq_ofDigitChars_zero]
  simp only [List.append_nil, List.drop_succ_cons, List.drop_zero]
  push_cast
  field_simp

theorem ofUnsignedChars?_iff (h : ∀ c ∈ cs, isNumeral c = true) {d : Decimal} :
    Decimal.ofUnsignedChars? cs = some d ↔ IsNumeral cs ∧ d.toRat = numeralValue cs := by
  cases digits_or_point h with
  | inl hall =>
    rw [isNumeral_digits hall]
    by_cases hne : cs = []
    · subst hne
      simp [Decimal.ofUnsignedChars?, Decimal.fraction]
    · rw [Decimal.ofUnsignedChars?_digits hall hne, ← numeralValue_digits hall, Decimal.toRat_inj]
      simp [hne, eq_comm]
  | inr hcut =>
    obtain ⟨ds, es, rfl, hds⟩ := hcut
    have hes : ∀ c ∈ es, isNumeral c = true := fun c hc =>
      h c (List.mem_append_right _ (List.mem_cons_of_mem _ hc))
    rw [isNumeral_point hds hes, ← numeralValue_point hds, Decimal.toRat_inj]
    by_cases hall : (ds ++ es ≠ [] ∧ ∀ c ∈ ds ++ es, c.isDigit = true) ∧ es.length ≤ maxScale
    · rw [Decimal.ofUnsignedChars?_point hall.1.2 hall.1.1 hall.2, Option.some_inj,
        and_iff_right hall]
      exact eq_comm
    · have hno : ¬(ds ++ es ≠ [] ∧ (ds ++ es).all Char.isDigit = true ∧ es.length ≤ maxScale) := by
        rwa [List.all_eq_true, ← and_assoc]
      rw [Decimal.ofUnsignedChars?]
      simp only [Decimal.takeWhile_digits hds, Decimal.fraction_point hds, hno, hall, if_false,
        false_and, reduceCtorEq]

theorem read_iff (h : ∀ c ∈ cs, isNumeral c = true) {d : Decimal} :
    Decimal.read (String.ofList cs) = .ok d ↔ IsNumeral cs ∧ d.toRat = numeralValue cs := by
  have hsplit := Decimal.splitSign_unsigned fun c hc => isNumeral_iff.mp (h c hc)
  rw [← ofUnsignedChars?_iff h, Decimal.read, Decimal.ofText?, String.toList_ofList,
    Decimal.ofChars?, hsplit]
  simp only
  cases Decimal.ofUnsignedChars? cs with
  | none => simp
  | some a => simp

theorem exists_toRat_eq (h : ∀ c ∈ cs, isNumeral c = true) :
    ∃ d : Decimal, d.toRat = numeralValue cs := by
  cases digits_or_point h with
  | inl hall => exact ⟨_, numeralValue_digits hall⟩
  | inr hcut =>
    obtain ⟨ds, es, rfl, hds⟩ := hcut
    exact ⟨_, numeralValue_point hds⟩

end Numerals

section Parts
variable {cs front rest segment : List Char}

theorem toExponent_iff {d : Decimal} {e : Exponent} :
    d.toExponent = .ok e ↔ d.toRat = (e.1 : ℚ) := by
  have hvalue : (e.1 : ℚ) = (Decimal.ofInt e.1).toRat := by simp
  rw [hvalue, Decimal.toRat_inj]
  constructor
  · intro h
    rw [Decimal.toExponent] at h
    split at h
    · next hint =>
      split at h
      · next hfits =>
        cases h
        apply Decimal.ext
        · exact (Int.toNat_of_nonneg hfits.2).symm
        · exact of_decide_eq_true hint
      · cases h
    · cases h
  · intro h
    rw [h]
    exact toExponent_ofInt e.2

theorem readMagnitude_iff (h : ∀ c ∈ cs, isNumeral c = true) {d : Decimal} :
    readMagnitude cs = .ok d ↔ IsMagnitude cs ∧ d.toRat = magnitude cs := by
  rw [readMagnitude, IsMagnitude, magnitude]
  by_cases hcs : cs = []
  · have hone : d.toRat = 1 ↔ 1 = d := by
      rw [← Decimal.toRat_one, Decimal.toRat_inj, eq_comm]
    simp [hcs, hone]
  · simp only [hcs, if_false, false_or]
    exact read_iff h

theorem readExponent_iff (h : ∀ c ∈ cs, isNumeral c = true) {coefficient : Decimal} {marked : Bool}
    {e : Exponent} : readExponent coefficient marked cs = .ok e ↔
      (cs = [] ∨ IsNumeral cs ∧ ∃ n : ℕ, n ≤ maxExponent ∧ numeralValue cs = n) ∧
        (e.1 : ℚ) = if cs ≠ [] then numeralValue cs else if marked then 1 else 0 := by
  rw [readExponent]
  by_cases hcs : cs = []
  · subst hcs
    cases marked <;> simp [Subtype.ext_iff, eq_comm]
  · simp only [hcs, if_false, false_or, ne_eq, not_false_eq_true, if_true, mapError_eq_ok,
      bind_eq_ok, read_iff h, toExponent_iff]
    constructor
    · intro hread
      obtain ⟨d, ⟨hnumeral, hd⟩, he⟩ := hread
      exact ⟨⟨hnumeral, e.1, e.2, hd.symm.trans he⟩, he.symm.trans hd⟩
    · intro hok
      obtain ⟨⟨hnumeral, -⟩, he⟩ := hok
      obtain ⟨d, hd⟩ := exists_toRat_eq h
      exact ⟨d, ⟨hnumeral, hd⟩, hd.trans he.symm⟩

theorem Split.eq (h : Split segment front rest) :
    segment.takeWhile isNumeral = front ∧ segment.dropWhile isNumeral = rest := by
  obtain ⟨rfl, hfront, hrest⟩ := h
  have hnumeral : ∀ c ∈ front, isNumeral c = true := fun c hc => isNumeral_iff.mpr (hfront c hc)
  rw [List.takeWhile_append_of_pos hnumeral, List.dropWhile_append_of_pos hnumeral]
  cases rest with
  | nil => simp
  | cons c cs => simp [isNumeral_of_isMarker (isMarker_iff.mpr (hrest c rfl))]

theorem split_of_known (h : ∀ c ∈ segment, isNumeral c = true ∨ isMarker c = true) :
    Split segment (segment.takeWhile isNumeral) (segment.dropWhile isNumeral) where
  joined := List.takeWhile_append_dropWhile
  numerals c hc := isNumeral_iff.mp (List.mem_takeWhile_imp hc)
  marker c hc := by
    have hmem : c ∈ segment := (List.dropWhile_sublist _).mem (List.mem_of_mem_head? hc)
    have hstop := List.head?_dropWhile_not isNumeral segment
    rw [hc] at hstop
    simpa [hstop, isMarker_iff] using h c hmem

theorem exponentChars_of_known (h : ∀ c ∈ rest, isNumeral c = true ∨ isMarker c = true) :
    exponentChars rest = rest.filter isNumeral := by
  refine List.filter_congr fun c hc => ?_
  cases h c hc with
  | inl hn =>
    have hm : ¬ (c = 'x' ∨ c = '^') := by
      intro hm
      rw [isNumeral_of_isMarker (isMarker_iff.mpr hm)] at hn
      cases hn
    simpa [hn] using hm
  | inr hm =>
    rw [isNumeral_of_isMarker hm]
    cases isMarker_iff.mp hm with
    | inl hx => simp [hx]
    | inr hhat => simp [hhat]

theorem sign_apply_apply (g : Sign) (d : Decimal) : g.apply (g.apply d) = d := by
  cases g with
  | plus => rfl
  | minus => exact Decimal.toRat_injective (by simp [Sign.apply])

theorem toRat_apply (g : Sign) {d : Decimal} {v : ℚ} :
    (g.apply d).toRat = v ↔ d.toRat = if g = .minus then -v else v := by
  cases g with
  | plus => rfl
  | minus =>
    rw [if_pos rfl, ← neg_eq_iff_eq_neg, ← Decimal.toRat_neg]
    rfl

section
variable (h : ∀ c ∈ segment, isNumeral c = true ∨ isMarker c = true)
include h

theorem isTerm_iff : IsTerm segment ↔
    IsMagnitude (segment.takeWhile isNumeral) ∧ IsPower (segment.dropWhile isNumeral) := by
  constructor
  · intro hterm
    obtain ⟨front, rest, hs, hmagnitude, hpower⟩ := hterm
    rw [hs.eq.1, hs.eq.2]
    exact ⟨hmagnitude, hpower⟩
  · exact fun hok => ⟨_, _, split_of_known h, hok⟩

theorem means_iff {g : Sign} {t : Term} : Means g segment t ↔
    (g.apply t.coefficient).toRat = magnitude (segment.takeWhile isNumeral) ∧
      t.exponent = power (segment.dropWhile isNumeral) := by
  rw [toRat_apply]
  constructor
  · intro hmeans
    obtain ⟨front, rest, hs, hcoefficient, hexponent⟩ := hmeans
    rw [hs.eq.1, hs.eq.2]
    exact ⟨hcoefficient, hexponent⟩
  · exact fun hok => ⟨_, _, split_of_known h, hok⟩

theorem readTerm_iff {g : Sign} {t : Term} :
    readTerm g segment = .ok t ↔ IsTerm segment ∧ Means g segment t := by
  have hfront : ∀ c ∈ segment.takeWhile isNumeral, isNumeral c = true :=
    fun c hc => List.mem_takeWhile_imp hc
  have hexponent : exponentChars (segment.dropWhile isNumeral) = _ :=
    exponentChars_of_known fun c hc => h c ((List.dropWhile_sublist _).mem hc)
  rw [isTerm_iff h, means_iff h, IsPower, power, hexponent, readTerm]
  generalize segment.takeWhile isNumeral = front at hfront
  generalize segment.dropWhile isNumeral = rest
  have hdigits : ∀ c ∈ rest.filter isNumeral, isNumeral c = true :=
    fun c hc => (List.mem_filter.mp hc).2
  simp only [bind_eq_ok, readMagnitude_iff hfront, readExponent_iff hdigits]
  constructor
  · intro hread
    obtain ⟨m, ⟨hm, hvalue⟩, e, ⟨he, hpower⟩, ⟨⟩⟩ := hread
    refine ⟨⟨hm, he⟩, ?_, ?_⟩
    · rw [← hvalue, Term.ofExponent, sign_apply_apply]
    · simpa [Term.ofExponent] using hpower
  · intro hok
    obtain ⟨⟨hm, he⟩, hvalue, hpower⟩ := hok
    -- the magnitude that was read is the coefficient under its sign once more
    refine ⟨g.apply t.coefficient, ⟨hm, hvalue⟩, ⟨t.exponent, t.exponent_le⟩, ⟨he, ?_⟩, ?_⟩
    · simpa using hpower
    · rw [sign_apply_apply]
      rfl

end

theorem exists_toRat_magnitude (h : ∀ c ∈ front, isNumeral c = true) :
    ∃ d : Decimal, d.toRat = magnitude front := by
  rw [magnitude]
  split
  · exact ⟨1, Decimal.toRat_one⟩
  · exact exists_toRat_eq h

theorem exists_power (h : IsPower rest) : ∃ e : Exponent, (e.1 : ℚ) = power rest := by
  rw [power]
  cases h with
  | inl hnil =>
    rw [if_neg (not_not.mpr hnil)]
    split
    · exact ⟨⟨1, by decide⟩, Nat.cast_one⟩
    · exact ⟨⟨0, by decide⟩, Nat.cast_zero⟩
  | inr hnumeral =>
    obtain ⟨⟨⟨⟨c, hc, -⟩, -⟩, -⟩, e, he, hvalue⟩ := hnumeral
    rw [if_pos (List.ne_nil_of_mem hc), hvalue]
    exact ⟨⟨e, he⟩, rfl⟩

theorem exists_means (h : IsTerm segment) (g : Sign) : ∃ t, Means g segment t := by
  obtain ⟨front, rest, hsplit, -, hpower⟩ := h
  obtain ⟨d, hd⟩ := exists_toRat_magnitude fun c hc => isNumeral_iff.mpr (hsplit.numerals c hc)
  obtain ⟨e, he⟩ := exists_power hpower
  refine ⟨Term.ofExponent (g.apply d) e, front, rest, hsplit, ?_, he⟩
  rw [Term.ofExponent, ← toRat_apply, sign_apply_apply, hd]

end Parts
end DecimalPoly.Grammar
