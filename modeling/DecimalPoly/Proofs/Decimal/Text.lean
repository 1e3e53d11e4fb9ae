import DecimalPoly.Document
import DecimalPoly.Proofs.Plain.Arithmetic
import DecimalPoly.Proofs.Plain.Notation
import DecimalPoly.Proofs.Text.Fault
import DecimalPoly.Proofs.Text.Terse

/-! Which texts are decimals, which decimals they are, and which of them a decimal is written as. A text
is read if it is a numeral behind at most one sign, and it is written again as it was if none of its
characters is spare. What is written is read back, whatever the numbers of digits, as long as the
places can be counted. -/
namespace DecimalPoly

namespace Grammar
open Reader

/-- A sign or none, and digits with at most one point. -/
structure SignedNumeral (cs : List Char) (sign : Option Sign) (body : List Char) : Prop where
  joined : cs = (sign.map Sign.toChar).toList ++ body
  characters : ∀ c ∈ body, c.isDigit = true ∨ c = '.'
  numeral : IsPositional body

def signedValue (sign : Option Sign) (body : List Char) : ℚ :=
  if sign = some .minus then -numeralValue body else numeralValue body

section
variable {cs body : List Char} {sign : Option Sign} {d : Decimal}

theorem exists_splitSign (cs : List Char) : ∃ (sign : Option Sign) (body : List Char),
    cs = (sign.map Sign.toChar).toList ++ body ∧
      Decimal.splitSign cs = (decide (sign = some .minus), body) := by
  rw [Decimal.splitSign.eq_def]
  split
  · exact ⟨some .minus, _, rfl, rfl⟩
  · exact ⟨some .plus, _, rfl, rfl⟩
  · exact ⟨none, cs, rfl, rfl⟩

theorem SignedNumeral.splitSign (h : SignedNumeral cs sign body) :
    Decimal.splitSign cs = (decide (sign = some .minus), body) := by
  rw [h.joined]
  cases sign with
  | none => exact Decimal.splitSign_unsigned h.characters
  | some g =>
    cases g with
    | plus => rfl
    | minus => rfl

theorem SignedNumeral.numeral_of_fits (h : SignedNumeral cs sign body)
    (hfits : (Decimal.fraction cs).length ≤ maxScale) : IsNumeral body := by
  refine ⟨h.numeral, ?_⟩
  -- a sign is not behind the point
  rw [h.joined] at hfits
  cases sign with
  | none => exact hfits
  | some g =>
    cases g with
    | plus => exact hfits
    | minus => exact hfits

theorem SignedNumeral.exists_unsigned (h : SignedNumeral cs sign body)
    (hfits : (Decimal.fraction cs).length ≤ maxScale) :
    ∃ u, Decimal.ofUnsignedChars? body = some u ∧ u.toRat = numeralValue body := by
  have hchars : ∀ c ∈ body, isNumeral c = true := fun c hc => isNumeral_iff.mpr (h.characters c hc)
  obtain ⟨u, hu⟩ := exists_toRat_eq hchars
  exact ⟨u, (ofUnsignedChars?_iff hchars).mpr ⟨h.numeral_of_fits hfits, hu⟩, hu⟩

theorem characters_of_ofUnsignedChars? (h : Decimal.ofUnsignedChars? cs = some d) :
    ∀ c ∈ cs, c.isDigit = true ∨ c = '.' := by
  have hcut := List.takeWhile_append_dropWhile (p := fun c => decide (c ≠ '.')) (l := cs)
  have hhead := List.head?_dropWhile_not (fun c => decide (c ≠ '.')) cs
  rw [Decimal.ofUnsignedChars?, Decimal.fraction] at h
  generalize cs.takeWhile (fun c => decide (c ≠ '.')) = whole at *
  generalize cs.dropWhile (fun c => decide (c ≠ '.')) = rest at *
  subst hcut
  split at h
  · next hok =>
    obtain ⟨hwhole, hfraction⟩ := List.forall_mem_append.mp (List.all_eq_true.mp hok.2.1)
    refine List.forall_mem_append.mpr ⟨fun c hc => .inl (hwhole c hc), ?_⟩
    cases rest with
    | nil => exact List.forall_mem_nil _
    | cons p fraction =>
      have hpoint : p = '.' := by simpa using hhead
      exact List.forall_mem_cons.mpr ⟨.inr hpoint, fun c hc => .inl (hfraction c hc)⟩
  · cases h

theorem toRat_signedValue (sign : Option Sign) {u : Decimal} (hu : u.toRat = numeralValue body) :
    (if sign = some .minus then -u else u).toRat = signedValue sign body := by
  rw [signedValue, ← hu]
  split
  · exact Decimal.toRat_neg u
  · rfl

theorem ofChars?_eq (sign : Option Sign)
    (hsplit : Decimal.splitSign cs = (decide (sign = some .minus), body)) : Decimal.ofChars? cs =
      (Decimal.ofUnsignedChars? body).map fun u => if sign = some .minus then -u else u := by
  rw [Decimal.ofChars?, hsplit]
  simp

theorem ofChars?_iff (hfits : (Decimal.fraction cs).length ≤ maxScale) :
    Decimal.ofChars? cs = some d ↔
      ∃ sign body, SignedNumeral cs sign body ∧ d.toRat = signedValue sign body := by
  constructor
  · intro h
    obtain ⟨sign, body, hjoined, hsplit⟩ := exists_splitSign cs
    rw [ofChars?_eq sign hsplit, Option.map_eq_some_iff] at h
    obtain ⟨u, hu, rfl⟩ := h
    have hchars := characters_of_ofUnsignedChars? hu
    obtain ⟨hnumeral, hvalue⟩ :=
      (ofUnsignedChars?_iff fun c hc => isNumeral_iff.mpr (hchars c hc)).mp hu
    exact ⟨sign, body, ⟨hjoined, hchars, hnumeral.toIsPositional⟩, toRat_signedValue sign hvalue⟩
  · intro h
    obtain ⟨sign, body, hsigned, hd⟩ := h
    obtain ⟨u, hu⟩ := hsigned.exists_unsigned hfits
    rw [ofChars?_eq sign hsigned.splitSign, hu.1, Option.map_some, Option.some_inj]
    exact Decimal.toRat_injective ((toRat_signedValue sign hu.2).trans hd.symm)

theorem toChars_of_nonneg (h : 0 ≤ d.toRat) : d.toChars = d.unsignedChars := by
  rw [Decimal.toChars, if_neg]
  rwa [Decimal.isNegative_iff, not_lt]

theorem toChars_neg_of_pos (h : 0 < d.toRat) : (-d).toChars = '-' :: d.unsignedChars := by
  have hneg : (-d).isNegative = true := by
    rw [Decimal.isNegative_iff, Decimal.toRat_neg]
    exact neg_neg_of_pos h
  rw [Decimal.toChars, if_pos hneg, unsignedChars_neg]

theorem notMem_unsignedChars (g : Sign) (d : Decimal) : g.toChar ∉ d.unsignedChars := by
  intro h
  cases g with
  | plus => exact absurd (Decimal.mem_unsignedChars h) (by decide)
  | minus => exact absurd (Decimal.mem_unsignedChars h) (by decide)

theorem ofChars?_toChars (hscale : d.scale ≤ maxScale) : Decimal.ofChars? d.toChars = some d := by
  have habs {u : Decimal} (hu : u.scale ≤ maxScale) (h : 0 ≤ u.toRat) :
      Decimal.ofUnsignedChars? u.unsignedChars = some u := by
    rw [Decimal.ofUnsignedChars?_unsignedChars hu, Option.some_inj]
    exact Decimal.toRat_injective ((Decimal.toRat_abs u).trans (abs_of_nonneg h))
  cases le_or_gt 0 d.toRat with
  | inl h =>
    have hsplit := Decimal.splitSign_unsigned fun c hc => Decimal.mem_unsignedChars (d := d) hc
    rw [toChars_of_nonneg h, ofChars?_eq none hsplit, habs hscale h]
    rfl
  | inr h =>
    obtain ⟨u, rfl⟩ : ∃ u, d = -u := ⟨-d, (neg_neg d).symm⟩
    have hpos : 0 < u.toRat := by
      rw [Decimal.toRat_neg] at h
      exact neg_lt_zero.mp h
    rw [toChars_neg_of_pos hpos, ofChars?_eq (some .minus) rfl, habs (u := u) hscale hpos.le]
    rfl

theorem toChars_eq_iff (h : SignedNumeral cs sign body)
    (hfits : (Decimal.fraction cs).length ≤ maxScale) (hd : Decimal.ofChars? cs = some d) :
    d.toChars = cs ↔
      sign ≠ some .plus ∧ IsTerse body ∧ (sign = some .minus → numeralValue body ≠ 0) := by
  obtain ⟨u, hu, hvalue⟩ := h.exists_unsigned hfits
  have hnonneg : 0 ≤ u.toRat := by
    rw [hvalue, numeralValue]
    positivity
  rw [ofChars?_eq sign h.splitSign, hu, Option.map_some, Option.some_inj] at hd
  rw [← unsignedChars_eq_iff hvalue, ← hvalue, h.joined]
  cases sign with
  | none =>
    obtain rfl : u = d := hd
    simp [toChars_of_nonneg hnonneg]
  | some g =>
    cases g with
    | plus =>
      obtain rfl : u = d := hd
      have hno : u.unsignedChars ≠ '+' :: body := by
        intro heq
        exact notMem_unsignedChars .plus u (heq ▸ List.mem_cons_self)
      simpa [Sign.toChar, toChars_of_nonneg hnonneg] using hno
    | minus =>
      obtain rfl : -u = d := hd
      cases hnonneg.eq_or_lt with
      | inl hzero =>
        have hno : (-u).toChars ≠ '-' :: body := by
          rw [toChars_of_nonneg (by rw [Decimal.toRat_neg, ← hzero, neg_zero])]
          intro heq
          exact notMem_unsignedChars .minus (-u) (heq ▸ List.mem_cons_self)
        simpa [Sign.toChar, ← hzero] using hno
      | inr hpos => simp [Sign.toChar, toChars_neg_of_pos hpos, hpos.ne']

end

end Grammar

namespace Decimal
open Plain Plain.Number Grammar

section
variable {s : String} {d : Decimal} {sign : Option Reader.Sign} {body : List Char}

theorem read_eq_ok : read s = .ok d ↔ ofChars? s.toList = some d := by
  rw [read, ofText?]
  cases ofChars? s.toList with
  | none => simp
  | some u => simp

section
variable (hfits : (fraction s.toList).length ≤ maxScale)
include hfits

theorem exists_read (h : SignedNumeral s.toList sign body) :
    ∃ d, read s = .ok d ∧ d.toRat = signedValue sign body := by
  obtain ⟨u, -, hu⟩ := h.exists_unsigned hfits
  have hd := toRat_signedValue sign hu
  exact ⟨_, read_eq_ok.mpr ((ofChars?_iff hfits).mpr ⟨sign, body, h, hd⟩), hd⟩

theorem exists_read_iff : (∃ d, read s = .ok d) ↔ ∃ sign body, SignedNumeral s.toList sign body := by
  constructor
  · intro h
    obtain ⟨d, hd⟩ := h
    obtain ⟨sign, body, hsigned, -⟩ := (ofChars?_iff hfits).mp (read_eq_ok.mp hd)
    exact ⟨sign, body, hsigned⟩
  · intro h
    obtain ⟨sign, body, hsigned⟩ := h
    obtain ⟨d, hd, -⟩ := exists_read hfits hsigned
    exact ⟨d, hd⟩

end

theorem read_text (hscale : d.scale ≤ maxScale) : read d.text = .ok d := by
  rw [read_eq_ok, text, String.toList_ofList, ofChars?_toChars hscale]

theorem text_eq_iff : d.text = s ↔ d.toChars = s.toList := by
  rw [text, ← String.toList_inj, String.toList_ofList]

theorem deserialize?_serialize {Data : Type} {format : StringFormat Data} (hformat : format.Lawful)
    (hscale : d.scale ≤ maxScale) : deserialize? format (d.serialize format) = some (.ok d) := by
  rw [deserialize?, serialize, hformat.read?_write, Option.map_some, read_text hscale]

end

/-- A text with less than `2 ^ 32` digits behind its point is a decimal if it is a numeral behind at
most one sign, and is told as a whole if not. The decimal is in lowest terms, has the value that the
text denotes, and is written as that text if no character of it is spare. Every decimal is read back
from its text, also from its serialized form. -/
theorem decimal_notation (s : String) (hfits : (fraction s.toList).length < 2 ^ 32) :
    ((∃ d, read s = .ok d) ↔ ∃ sign body, SignedNumeral s.toList sign body) ∧
    (∀ e, read s = .error e ↔
      (¬∃ sign body, SignedNumeral s.toList sign body) ∧ e = .invalidNumber s) ∧
    Number.read s = (read s).map ofDecimal ∧
    (∀ sign body, SignedNumeral s.toList sign body → ∃ d, read s = .ok d ∧
      (ofDecimal d).Denotes (signedValue sign body) ∧
      (d.text = s ↔
        sign ≠ some .plus ∧ IsTerse body ∧ (sign = some .minus → numeralValue body ≠ 0))) ∧
    (∀ d : Decimal, (ofDecimal d).text = d.text) ∧
    ∀ d : Decimal, d.scale < 2 ^ 32 → read d.text = .ok d ∧
      Number.read d.text = .ok (ofDecimal d) ∧
      ∀ (Data : Type) (format : StringFormat Data), format.Lawful →
        deserialize? format (d.serialize format) = some (.ok d) := by
  have hfits := Nat.le_of_lt_succ hfits
  refine ⟨exists_read_iff hfits, fun e => ?_, read_eq s, fun sign body hsigned => ?_, text_ofDecimal,
    fun d hscale => ?_⟩
  · rw [← exists_read_iff hfits]
    exact eq_error_iff fun e he => eq_of_read_eq_error he
  · obtain ⟨d, hd, hvalue⟩ := exists_read hfits hsigned
    refine ⟨d, hd, denotes_ofDecimal hvalue, ?_⟩
    rw [text_eq_iff]
    exact toChars_eq_iff hsigned hfits (read_eq_ok.mp hd)
  · have hscale := Nat.le_of_lt_succ hscale
    refine ⟨read_text hscale, ?_, fun Data format hformat => deserialize?_serialize hformat hscale⟩
    rw [read_eq, read_text hscale]
    rfl

/-- A trailing zero is spare, so the text is not the one that is written. -/
theorem decimal_notation_half :
    let s := "-0.50"
    (fraction s.toList).length < 2 ^ 32 ∧ SignedNumeral s.toList (some .minus) "0.50".toList ∧
      ¬IsTerse "0.50".toList ∧ signedValue (some .minus) "0.50".toList = -1 / 2 ∧
      ∃ d, read s = .ok d ∧ (ofDecimal d).Denotes (-1 / 2) ∧ d.text ≠ s ∧ read d.text = .ok d := by
  intro s
  have hfits : (fraction s.toList).length < 2 ^ 32 := by decide
  have hbody : "0.50".toList = ['0', '.', '5', '0'] := rfl
  have hsigned : SignedNumeral s.toList (some .minus) "0.50".toList := by
    refine ⟨by decide, ?_, ⟨⟨'5', by decide, rfl⟩, by decide⟩⟩
    rw [hbody]
    simp [Char.isDigit]
  have hspare : ¬IsTerse "0.50".toList := fun h => h.trailing ['0'] ['5', '0'] rfl rfl
  have hhalf : signedValue (some .minus) "0.50".toList = -1 / 2 := by
    have hvalue : numeralValue "0.50".toList = (0 : ℕ) + (50 : ℕ) / 10 ^ 2 := rfl
    rw [signedValue, if_pos rfl, hvalue]
    norm_num
  obtain ⟨-, -, -, hread, -, hback⟩ := decimal_notation s hfits
  obtain ⟨d, hd, hvalue, htext⟩ := hread _ _ hsigned
  have hscale : d.scale < 2 ^ 32 := Nat.lt_succ_of_le (scale_le_of_read hd)
  rw [hhalf] at hvalue
  exact ⟨hfits, hsigned, hspare, hhalf, d, hd, hvalue, fun h => hspare (htext.mp h).2.1,
    (hback d hscale).1⟩

end Decimal
end DecimalPoly
