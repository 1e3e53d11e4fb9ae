import DecimalPoly.SparsePoly.Reader
import DecimalPoly.SparsePoly.Basic
import DecimalPoly.Proofs.Text.Numeral

/-! The text of one term, without its sign, reads back as the term under that sign: the characters up
to the first marker are the coefficient, left out if it is one, and those after it the exponent. -/
namespace DecimalPoly
open Reader

namespace Reader

theorem isNumeral_iff {c : Char} : isNumeral c = true ↔ c.isDigit = true ∨ c = '.' := by
  simp [isNumeral]

theorem isMarker_iff {c : Char} : isMarker c = true ↔ c = 'x' ∨ c = '^' := by
  simp [isMarker]

theorem isNumeral_of_isMarker {c : Char} (h : isMarker c = true) : isNumeral c = false := by
  cases isMarker_iff.mp h with
  | inl hx => rw [hx]; rfl
  | inr hhat => rw [hhat]; rfl

def signOf (t : Term) : Sign := if t.coefficient.isNegative then .minus else .plus

theorem signOf_apply (t : Term) : (signOf t).apply t.coefficient.abs = t.coefficient := by
  rw [signOf, Decimal.isNegative]
  by_cases h : t.coefficient.mantissa < 0
  · rw [if_pos (by simpa using h)]
    apply Decimal.ext
    · change -((t.coefficient.mantissa.natAbs : ℤ)) = _
      omega
    · rfl
  · rw [if_neg (by simpa using h)]
    apply Decimal.ext
    · change ((t.coefficient.mantissa.natAbs : ℤ)) = _
      omega
    · rfl

def factorChars (t : Term) : List Char :=
  if t.coefficient.abs = 1 ∧ t.exponent ≠ 0 then [] else t.coefficient.unsignedChars

def powerChars : Nat → List Char
  | 0 => []
  | 1 => ['x']
  | e => 'x' :: '^' :: Nat.toDigits 10 e

theorem unsignedChars_eq (t : Term) : t.unsignedChars = factorChars t ++ powerChars t.exponent := by
  simp only [Term.unsignedChars, factorChars, powerChars]
  simp only [Decimal.toChars_abs]
  by_cases h : t.coefficient.abs = 1 <;> split <;> simp_all

theorem isNumeral_of_mem_unsignedChars {d : Decimal} {c : Char} (h : c ∈ d.unsignedChars) :
    isNumeral c = true := by
  rw [isNumeral]
  cases Decimal.mem_unsignedChars h with
  | inl hd => simp [hd]
  | inr hp => simp [hp]

theorem isNumeral_of_mem_toDigits {n : Nat} {c : Char} (h : c ∈ Nat.toDigits 10 n) :
    isNumeral c = true := by
  rw [isNumeral]
  simp [Nat.isDigit_of_mem_toDigits (by decide) (by decide) h]

theorem isNumeral_of_mem_factorChars {t : Term} {c : Char} (h : c ∈ factorChars t) :
    isNumeral c = true := by
  rw [factorChars] at h
  split at h
  · cases h
  · exact isNumeral_of_mem_unsignedChars h

theorem takeWhile_powerChars (e : Nat) : (powerChars e).takeWhile isNumeral = [] := by
  simp only [powerChars]
  split <;> simp [isNumeral]

theorem takeWhile_unsignedChars (t : Term) :
    t.unsignedChars.takeWhile isNumeral = factorChars t := by
  rw [unsignedChars_eq, List.takeWhile_append_of_pos fun c hc => isNumeral_of_mem_factorChars hc,
    takeWhile_powerChars, List.append_nil]

theorem dropWhile_unsignedChars (t : Term) :
    t.unsignedChars.dropWhile isNumeral = powerChars t.exponent := by
  have h := List.takeWhile_append_dropWhile (p := isNumeral) (l := t.unsignedChars)
  rw [takeWhile_unsignedChars] at h
  exact List.append_cancel_left (h.trans (unsignedChars_eq t))

theorem readMagnitude_factorChars {t : Term} (hscale : t.coefficient.scale ≤ maxScale) :
    readMagnitude (factorChars t) = .ok t.coefficient.abs := by
  rw [readMagnitude, factorChars]
  by_cases h : t.coefficient.abs = 1 ∧ t.exponent ≠ 0
  · rw [if_pos h, if_pos rfl, h.1]
  · rw [if_neg h, if_neg (Decimal.unsignedChars_ne_nil _),
      Decimal.read_unsignedChars hscale]

theorem unsignedChars_ofInt (n : Nat) : (Decimal.ofInt n).unsignedChars = Nat.toDigits 10 n := by
  have hpos : 1 ≤ (Nat.toDigits 10 n).length := Nat.length_toDigits_pos
  change (Nat.toDigits 10 n).leftpad 1 '0' = _
  rw [List.leftpad, Nat.sub_eq_zero_of_le hpos, List.replicate_zero, List.nil_append]

theorem toExponent_ofInt {n : Nat} (h : n ≤ maxExponent) :
    (Decimal.ofInt n).toExponent = .ok ⟨n, h⟩ := by
  have hfits : (Decimal.ofInt n).mantissa.toNat ≤ maxExponent ∧ 0 ≤ (Decimal.ofInt n).mantissa :=
    ⟨h, Int.natCast_nonneg n⟩
  have hint : (Decimal.ofInt n).isInteger = true := rfl
  rw [Decimal.toExponent, if_pos hint, dif_pos hfits]
  rfl

theorem read_toDigits (n : Nat) :
    Decimal.read (String.ofList (Nat.toDigits 10 n)) = .ok (Decimal.ofInt n) := by
  rw [← unsignedChars_ofInt, Decimal.read_unsignedChars (Nat.zero_le _)]
  rfl

theorem filter_powerChars {e : Nat} (h : 1 < e) :
    (powerChars e).filter isNumeral = Nat.toDigits 10 e := by
  have hdigits : (Nat.toDigits 10 e).filter isNumeral = Nat.toDigits 10 e :=
    List.filter_eq_self.mpr fun c hc => isNumeral_of_mem_toDigits hc
  simp only [powerChars]
  split
  · omega
  · omega
  · simp [isNumeral, hdigits]

theorem readExponent_powerChars (c : Decimal) {e : Nat} (h : e ≤ maxExponent) :
    readExponent c (!(powerChars e).isEmpty) ((powerChars e).filter isNumeral) = .ok ⟨e, h⟩ := by
  by_cases hsmall : e ≤ 1
  · obtain rfl | rfl : e = 0 ∨ e = 1 := by omega
    · rfl
    · rfl
  · have hne : Nat.toDigits 10 e ≠ [] := Nat.toDigits_ne_nil
    rw [filter_powerChars (by omega), readExponent, if_neg hne, read_toDigits]
    change Except.mapError _ (Decimal.ofInt e).toExponent = _
    rw [toExponent_ofInt h]
    rfl

theorem readTerm_unsignedChars {t : Term} (hscale : t.coefficient.scale ≤ maxScale) :
    readTerm (signOf t) t.unsignedChars = .ok t := by
  rw [readTerm]
  rw [takeWhile_unsignedChars, dropWhile_unsignedChars, readMagnitude_factorChars hscale]
  change (readExponent ((signOf t).apply t.coefficient.abs) _ _ >>= fun e =>
    pure (Term.ofExponent ((signOf t).apply t.coefficient.abs) e)) = _
  rw [signOf_apply, readExponent_powerChars _ t.exponent_le]
  rfl

theorem unsignedChars_ne_nil (t : Term) : t.unsignedChars ≠ [] := by
  rw [unsignedChars_eq]
  rw [factorChars]
  by_cases h : t.coefficient.abs = 1 ∧ t.exponent ≠ 0
  · rw [if_pos h]
    simp only [powerChars]
    split <;> simp_all
  · rw [if_neg h]
    intro hnil
    exact Decimal.unsignedChars_ne_nil _ (List.append_eq_nil_iff.mp hnil).1

theorem mem_unsignedChars {t : Term} {c : Char} (h : c ∈ t.unsignedChars) :
    isNumeral c = true ∨ isMarker c = true := by
  rw [unsignedChars_eq] at h
  cases List.mem_append.mp h with
  | inl hf => exact .inl (isNumeral_of_mem_factorChars hf)
  | inr hp =>
    simp only [powerChars] at hp
    split at hp
    · cases hp
    · simp_all [isMarker]
    · cases List.mem_cons.mp hp with
      | inl hx => exact .inr (by simp [hx, isMarker])
      | inr hp =>
        cases List.mem_cons.mp hp with
        | inl hx => exact .inr (by simp [hx, isMarker])
        | inr hd => exact .inl (isNumeral_of_mem_toDigits hd)

end Reader
end DecimalPoly
