import DecimalPoly.Intake
import DecimalPoly.Proofs.Decimal.Value
import Mathlib.Data.List.TakeWhile

/-! The text of a decimal reads back as that decimal: the digits in front of the point and behind it
are the digits of the mantissa with zeros before them, and there are `scale` behind it. -/
namespace DecimalPoly.Decimal

theorem isDigit_ne_point {c : Char} (h : c.isDigit = true) : c ≠ '.' := by
  rintro rfl
  simp at h

theorem takeWhile_digits {cs rest : List Char} (h : ∀ c ∈ cs, c.isDigit = true) :
    (cs ++ '.' :: rest).takeWhile (· ≠ '.') = cs := by
  rw [List.takeWhile_append_of_pos fun c hc => by simpa using isDigit_ne_point (h c hc)]
  simp

theorem fraction_point {cs : List Char} (h : ∀ c ∈ cs, c.isDigit = true) (rest : List Char) :
    fraction (cs ++ '.' :: rest) = rest := by
  rw [fraction, List.dropWhile_append_of_pos fun c hc => by simpa using isDigit_ne_point (h c hc)]
  simp

theorem fraction_digits {cs : List Char} (h : ∀ c ∈ cs, c.isDigit = true) : fraction cs = [] := by
  rw [fraction, List.dropWhile_eq_nil_iff.mpr fun c hc => by simpa using isDigit_ne_point (h c hc)]
  rfl

theorem ofUnsignedChars?_digits {cs : List Char} (h : ∀ c ∈ cs, c.isDigit = true) (hne : cs ≠ []) :
    ofUnsignedChars? cs = some (ofScaled (Nat.ofDigitChars 10 cs 0) 0) := by
  have htake : cs.takeWhile (· ≠ '.') = cs :=
    List.takeWhile_eq_self_iff.mpr fun c hc => by simpa using isDigit_ne_point (h c hc)
  rw [ofUnsignedChars?]
  simp only [htake, fraction_digits h, List.append_nil, List.length_nil]
  exact if_pos ⟨hne, List.all_eq_true.mpr h, Nat.zero_le _⟩

theorem ofUnsignedChars?_point {cs rest : List Char} (h : ∀ c ∈ cs ++ rest, c.isDigit = true)
    (hne : cs ++ rest ≠ []) (hscale : rest.length ≤ maxScale) :
    ofUnsignedChars? (cs ++ '.' :: rest) =
      some (ofScaled (Nat.ofDigitChars 10 (cs ++ rest) 0) rest.length) := by
  have hcs : ∀ c ∈ cs, c.isDigit = true := fun c hc => h c (List.mem_append_left _ hc)
  rw [ofUnsignedChars?]
  simp only [takeWhile_digits hcs, fraction_point hcs]
  exact if_pos ⟨hne, List.all_eq_true.mpr h, hscale⟩

theorem isDigit_leftpad {ds : List Char} (h : ∀ c ∈ ds, c.isDigit = true) (n : Nat) :
    ∀ c ∈ ds.leftpad n '0', c.isDigit = true := by
  intro c hc
  rw [List.leftpad, List.mem_append, List.mem_replicate] at hc
  cases hc with
  | inl hz => rw [hz.2]; rfl
  | inr hd => exact h c hd

theorem ofDigitChars_leftpad (ds : List Char) (n : Nat) :
    Nat.ofDigitChars 10 (ds.leftpad n '0') 0 = Nat.ofDigitChars 10 ds 0 := by
  rw [List.leftpad, Nat.ofDigitChars_append, Nat.ofDigitChars_replicate_zero, Nat.mul_zero]

theorem le_length_leftpad (ds : List Char) (n : Nat) : n ≤ (ds.leftpad n '0').length := by
  rw [List.leftpad, List.length_append, List.length_replicate]
  omega

theorem ofUnsignedChars?_positional {ds : List Char} (h : ∀ c ∈ ds, c.isDigit = true)
    {scale : Nat} (hscale : scale ≤ maxScale) :
    ofUnsignedChars? (positional ds scale) = some (ofScaled (Nat.ofDigitChars 10 ds 0) scale) := by
  have hlen := le_length_leftpad ds (scale + 1)
  have hne : ds.leftpad (scale + 1) '0' ≠ [] := List.ne_nil_of_length_pos (by omega)
  have hdigits := isDigit_leftpad h (scale + 1)
  rw [← ofDigitChars_leftpad ds (scale + 1)]
  unfold positional
  dsimp only
  generalize ds.leftpad (scale + 1) '0' = padded at *
  split
  · next hs =>
    subst hs
    exact ofUnsignedChars?_digits hdigits hne
  · have happend := List.take_append_drop (padded.length - scale) padded
    have hbehind : (padded.drop (padded.length - scale)).length = scale := by
      rw [List.length_drop]
      omega
    rw [ofUnsignedChars?_point (by rwa [happend]) (by rwa [happend]) (by rwa [hbehind]), happend,
      hbehind]

theorem ofUnsignedChars?_unsignedChars {d : Decimal} (hscale : d.scale ≤ maxScale) :
    ofUnsignedChars? d.unsignedChars = some d.abs := by
  have hdigits : ∀ c ∈ Nat.toDigits 10 d.mantissa.natAbs, c.isDigit = true :=
    fun c hc => Nat.isDigit_of_mem_toDigits (by decide) (by decide) hc
  have h := ofUnsignedChars?_positional hdigits hscale
  rw [Nat.ofDigitChars_ten_toDigits] at h
  exact h.trans (congrArg some (ofScaled_self d.abs))

theorem scale_le_of_ofUnsignedChars? {cs : List Char} {d : Decimal}
    (h : ofUnsignedChars? cs = some d) : d.scale ≤ maxScale := by
  rw [ofUnsignedChars?] at h
  split at h
  · next hok =>
    rw [← Option.some_inj.mp h]
    exact (scale_ofScaled_le ..).trans hok.2.2
  · cases h

theorem scale_le_of_read {s : String} {d : Decimal} (h : Decimal.read s = .ok d) :
    d.scale ≤ maxScale := by
  rw [Decimal.read, ofText?, ofChars?] at h
  generalize splitSign s.toList = parts at h
  obtain ⟨negative, body⟩ := parts
  cases hread : ofUnsignedChars? body with
  | none =>
    simp only [hread] at h
    cases h
  | some u =>
    simp only [hread] at h
    cases h
    have hle := scale_le_of_ofUnsignedChars? hread
    cases negative with
    | false => exact hle
    | true => exact hle

theorem mem_unsignedChars {d : Decimal} {c : Char} (h : c ∈ d.unsignedChars) :
    c.isDigit = true ∨ c = '.' := by
  have hdigits : ∀ c ∈ Nat.toDigits 10 d.mantissa.natAbs, c.isDigit = true :=
    fun c hc => Nat.isDigit_of_mem_toDigits (by decide) (by decide) hc
  have hpad := isDigit_leftpad hdigits (d.scale + 1)
  rw [unsignedChars, positional] at h
  split at h
  · exact .inl (hpad c h)
  · cases List.mem_append.mp h with
    | inl hl => exact .inl (hpad c (List.mem_of_mem_take hl))
    | inr hr =>
      cases List.mem_cons.mp hr with
      | inl hp => exact .inr hp
      | inr hd => exact .inl (hpad c (List.mem_of_mem_drop hd))

theorem unsignedChars_ne_nil (d : Decimal) : d.unsignedChars ≠ [] := by
  have hlen := le_length_leftpad (Nat.toDigits 10 d.mantissa.natAbs) (d.scale + 1)
  rw [unsignedChars, positional]
  split
  · exact List.ne_nil_of_length_pos (by omega)
  · exact List.append_ne_nil_of_right_ne_nil _ (List.cons_ne_nil _ _)

theorem splitSign_unsigned {cs : List Char} (h : ∀ c ∈ cs, c.isDigit = true ∨ c = '.') :
    splitSign cs = (false, cs) := by
  simp only [splitSign]
  split
  · have := h '-' List.mem_cons_self
    simp at this
  · have := h '+' List.mem_cons_self
    simp at this
  · rfl

theorem toChars_abs (d : Decimal) : d.abs.toChars = d.unsignedChars := by
  have hn : d.abs.isNegative = false := by
    change decide ((d.mantissa.natAbs : ℤ) < 0) = false
    simp
  rw [toChars, hn]
  rfl

theorem read_unsignedChars {d : Decimal} (hscale : d.scale ≤ maxScale) :
    Decimal.read (String.ofList d.unsignedChars) = .ok d.abs := by
  have hread : ofText? (String.ofList d.unsignedChars) = some d.abs := by
    rw [ofText?, String.toList_ofList, ofChars?, splitSign_unsigned fun c hc => mem_unsignedChars hc]
    simp [ofUnsignedChars?_unsignedChars hscale]
  rw [Decimal.read, hread]
  rfl

end DecimalPoly.Decimal
