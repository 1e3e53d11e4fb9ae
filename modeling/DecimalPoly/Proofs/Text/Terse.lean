import DecimalPoly.Proofs.Text.Grammar

/-! Numerals in which no character is spare. Every number without a sign has one such numeral, and that
is what it is written as: the digits in front of the point are those of its whole part, and the others
end with a digit that is not zero. -/
namespace DecimalPoly.Grammar
open Reader

structure IsWhole (ds : List Char) : Prop where
  digits : ∀ c ∈ ds, c.isDigit = true
  nonempty : ds ≠ []
  leading : ds.head? = some '0' → ds = ['0']

/-- A numeral that has no superfluous zero in front or behind its point and a digit on each side of it. -/
structure IsTerse (cs : List Char) : Prop where
  characters : ∀ c ∈ cs, c.isDigit = true ∨ c = '.'
  numeral : IsPositional cs
  leading : ∀ c rest, cs = '0' :: c :: rest → c = '.'
  sides : ∀ whole fraction, cs = whole ++ '.' :: fraction → whole ≠ [] ∧ fraction ≠ []
  trailing : ∀ whole fraction, cs = whole ++ '.' :: fraction → fraction.getLast? ≠ some '0'

section Whole
variable {ds : List Char} {c : Char}

theorem exists_digitChar (h : c.isDigit = true) : ∃ k < 10, c = Nat.digitChar k := by
  rw [Char.isDigit, Bool.and_eq_true, decide_eq_true_eq, decide_eq_true_eq] at h
  obtain ⟨hlow, hhigh⟩ := h
  have hlow : 48 ≤ c.toNat := hlow
  have hhigh : c.toNat ≤ 57 := hhigh
  refine ⟨c.toNat - 48, by omega, ?_⟩
  apply Char.toNat_inj.mp
  rw [Nat.toNat_digitChar_of_lt_ten (by omega)]
  omega

theorem ofDigitChars_concat {k : Nat} (hk : k < 10) (ds : List Char) :
    Nat.ofDigitChars 10 (ds ++ [Nat.digitChar k]) 0 = 10 * Nat.ofDigitChars 10 ds 0 + k := by
  rw [Nat.ofDigitChars_append, Nat.ofDigitChars_cons_digitChar_of_lt_ten hk, Nat.ofDigitChars_nil]

theorem ofDigitChars_mod_ten (h : ds.getLast? = some c) (hc : c.isDigit = true) :
    Nat.ofDigitChars 10 ds 0 % 10 = 0 ↔ c = '0' := by
  obtain ⟨k, hk, rfl⟩ := exists_digitChar hc
  obtain ⟨es, rfl⟩ := List.getLast?_eq_some_iff.mp h
  rw [ofDigitChars_concat hk, Nat.digitChar_eq_zero]
  omega

theorem head?_toDigits {n : Nat} (h : (Nat.toDigits 10 n).head? = some '0') : n = 0 := by
  induction n using Nat.strongRecOn with
  | ind n ih =>
    by_cases hn : n < 10
    · rw [Nat.toDigits_of_lt_base hn, List.head?_singleton, Option.some_inj] at h
      exact Nat.digitChar_eq_zero.mp h
    · rw [Nat.toDigits_of_base_le (by decide) (by omega),
        List.head?_append_of_ne_nil _ Nat.toDigits_ne_nil] at h
      have := ih (n / 10) (by omega) h
      omega

theorem isWhole_toDigits (n : Nat) : IsWhole (Nat.toDigits 10 n) where
  digits _ := Nat.isDigit_of_mem_toDigits (by decide) (by decide)
  nonempty := Nat.toDigits_ne_nil
  leading h := by rw [head?_toDigits h, Nat.toDigits_zero]

theorem toDigits_ofDigitChars {n : Nat} (hn : 0 < n) (h : ∀ c ∈ ds, c.isDigit = true) :
    Nat.toDigits 10 (Nat.ofDigitChars 10 ds n) = Nat.toDigits 10 n ++ ds := by
  induction ds generalizing n with
  | nil => rw [Nat.ofDigitChars_nil, List.append_nil]
  | cons c ds ih =>
    obtain ⟨hc, hds⟩ := List.forall_mem_cons.mp h
    obtain ⟨k, hk, rfl⟩ := exists_digitChar hc
    rw [Nat.ofDigitChars_cons_digitChar_of_lt_ten hk, ih (by omega) hds,
      ← Nat.toDigits_append_toDigits (by decide) hn hk, Nat.toDigits_of_lt_base hk,
      List.append_assoc]
    rfl

theorem IsWhole.toDigits (h : IsWhole ds) : Nat.toDigits 10 (Nat.ofDigitChars 10 ds 0) = ds := by
  cases ds with
  | nil => exact absurd rfl h.nonempty
  | cons c ds =>
    obtain ⟨hc, hds⟩ := List.forall_mem_cons.mp h.digits
    obtain ⟨k, hk, rfl⟩ := exists_digitChar hc
    rw [Nat.ofDigitChars_cons_digitChar_of_lt_ten hk, Nat.mul_zero, Nat.zero_add]
    by_cases hzero : k = 0
    · subst hzero
      obtain ⟨-, rfl⟩ := List.cons_eq_cons.mp (h.leading rfl)
      rfl
    · rw [toDigits_ofDigitChars (Nat.pos_of_ne_zero hzero) hds, Nat.toDigits_of_lt_base hk]
      rfl

theorem leftpad_toDigits (h : ∀ c ∈ ds, c.isDigit = true) (hne : ds ≠ []) :
    (Nat.toDigits 10 (Nat.ofDigitChars 10 ds 0)).leftpad ds.length '0' = ds := by
  induction ds with
  | nil => exact absurd rfl hne
  | cons c ds ih =>
    obtain ⟨hc, hds⟩ := List.forall_mem_cons.mp h
    by_cases hwhole : IsWhole (c :: ds)
    · rw [hwhole.toDigits, List.leftpad, Nat.sub_self]
      rfl
    · have hzero : c = '0' ∧ ds ≠ [] := by
        by_contra hno
        refine hwhole ⟨h, hne, fun hhead => ?_⟩
        obtain rfl := Option.some_inj.mp hhead
        simpa using hno
      obtain ⟨rfl, hnil⟩ := hzero
      have hfits : (Nat.toDigits 10 (Nat.ofDigitChars 10 ds 0)).length ≤ ds.length := by
        have hlen := congrArg List.length (ih hds hnil)
        rw [List.leftpad, List.length_append, List.length_replicate] at hlen
        omega
      have hpad := ih hds hnil
      have hvalue : Nat.ofDigitChars 10 ('0' :: ds) 0 = Nat.ofDigitChars 10 ds 0 := by
        rw [Nat.ofDigitChars_cons]
        rfl
      rw [List.leftpad] at hpad ⊢
      rw [hvalue, List.length_cons, Nat.succ_sub hfits, List.replicate_succ, List.cons_append, hpad]

end Whole

section Terse
variable {cs ds es : List Char} {d : Decimal}

theorem point_notMem (h : ∀ c ∈ ds, c.isDigit = true) : '.' ∉ ds :=
  fun hmem => Decimal.isDigit_ne_point (h _ hmem) rfl

theorem IsWhole.isTerse (h : IsWhole ds) : IsTerse ds := by
  constructor
  case characters => exact fun c hc => .inl (h.digits c hc)
  case numeral => exact (isPositional_digits h.digits).mpr h.nonempty
  case leading =>
    intro c rest hds
    have hone := h.leading (by rw [hds]; rfl)
    rw [hds] at hone
    cases hone
  case sides =>
    intro whole fraction hds
    exact absurd (by simp [hds]) (point_notMem h.digits)
  case trailing =>
    intro whole fraction hds
    exact absurd (by simp [hds]) (point_notMem h.digits)

theorem isTerse_point (hds : IsWhole ds) (hes : ∀ c ∈ es, c.isDigit = true) (hne : es ≠ [])
    (hlast : es.getLast? ≠ some '0') : IsTerse (ds ++ '.' :: es) := by
  have hdigits : ∀ c ∈ ds ++ es, c.isDigit = true := List.forall_mem_append.mpr ⟨hds.digits, hes⟩
  -- the text has one point only
  have hcut (whole fraction : List Char) (h : ds ++ '.' :: es = whole ++ '.' :: fraction) :
      ds = whole ∧ es = fraction := by
    rw [List.append_cons_inj_of_notMem (point_notMem hds.digits) (point_notMem hes)] at h
    exact ⟨h.1, h.2.2⟩
  constructor
  case characters =>
    intro c hc
    rw [List.mem_append, List.mem_cons] at hc
    obtain hc | hc | hc := hc
    · exact .inl (hds.digits c hc)
    · exact .inr hc
    · exact .inl (hes c hc)
  case numeral =>
    have hrest : ∀ c ∈ es, isNumeral c = true := fun c hc => isNumeral_iff.mpr (.inl (hes c hc))
    rw [isPositional_point hds.digits hrest]
    exact ⟨by simp [hne], hdigits⟩
  case leading =>
    intro c rest h
    have hhead : ds.head? = some '0' := by
      rw [← List.head?_append_of_ne_nil ds hds.nonempty, h, List.head?_cons]
    rw [hds.leading hhead] at h
    obtain ⟨-, hrest⟩ := List.cons_eq_cons.mp h
    exact (List.cons_eq_cons.mp hrest).1.symm
  case sides =>
    intro whole fraction h
    obtain ⟨rfl, rfl⟩ := hcut whole fraction h
    exact ⟨hds.nonempty, hne⟩
  case trailing =>
    intro whole fraction h
    obtain ⟨rfl, rfl⟩ := hcut whole fraction h
    exact hlast

theorem IsTerse.whole_or_point (h : IsTerse cs) : IsWhole cs ∨ ∃ ds es, cs = ds ++ '.' :: es ∧
    IsWhole ds ∧ (∀ c ∈ es, c.isDigit = true) ∧ es ≠ [] ∧ es.getLast? ≠ some '0' := by
  have hlead {ds rest : List Char} (hcs : cs = ds ++ rest) (hdigits : ∀ c ∈ ds, c.isDigit = true)
      (hhead : ds.head? = some '0') : ds = ['0'] := by
    obtain ⟨more, rfl⟩ := List.head?_eq_some_iff.mp hhead
    cases more with
    | nil => rfl
    | cons c more =>
      have hpoint := h.leading c (more ++ rest) hcs
      exact absurd hpoint (Decimal.isDigit_ne_point (hdigits c (by simp)))
  cases digits_or_point fun c hc => isNumeral_iff.mpr (h.characters c hc) with
  | inl hall =>
    exact .inl ⟨hall, (isPositional_digits hall).mp h.numeral, hlead (List.append_nil cs).symm hall⟩
  | inr hcut =>
    obtain ⟨ds, es, rfl, hds⟩ := hcut
    have hrest : ∀ c ∈ es, isNumeral c = true := fun c hc =>
      isNumeral_iff.mpr (h.characters c (List.mem_append_right _ (List.mem_cons_of_mem _ hc)))
    obtain ⟨-, hdigits⟩ := (isPositional_point hds hrest).mp h.numeral
    obtain ⟨hne, hes⟩ := h.sides ds es rfl
    exact .inr ⟨ds, es, rfl, ⟨hds, hne, hlead rfl hds⟩,
      fun c hc => hdigits c (List.mem_append_right _ hc), hes, h.trailing ds es rfl⟩

theorem ofDigitChars_append_mod_ten (ds : List Char) (hes : ∀ c ∈ es, c.isDigit = true) (hne : es ≠ [])
    (hlast : es.getLast? ≠ some '0') : Nat.ofDigitChars 10 (ds ++ es) 0 % 10 ≠ 0 := by
  have hc := List.getLast?_eq_some_getLast hne
  generalize es.getLast hne = c at hc
  have hend : (ds ++ es).getLast? = some c := by rw [List.getLast?_append_of_ne_nil _ hne, hc]
  rw [ne_eq, ofDigitChars_mod_ten hend (hes c (List.mem_of_getLast? hc))]
  rintro rfl
  exact hlast hc

theorem IsWhole.leftpad_append (hds : IsWhole ds) (hes : ∀ c ∈ es, c.isDigit = true) :
    (Nat.toDigits 10 (Nat.ofDigitChars 10 (ds ++ es) 0)).leftpad (es.length + 1) '0' = ds ++ es := by
  have hdigits : ∀ c ∈ ds ++ es, c.isDigit = true := List.forall_mem_append.mpr ⟨hds.digits, hes⟩
  have hne := List.append_ne_nil_of_left_ne_nil hds.nonempty es
  by_cases hhead : ds.head? = some '0'
  · have hpad := leftpad_toDigits hdigits hne
    rwa [hds.leading hhead, List.length_append, List.length_singleton, Nat.add_comm,
      ← hds.leading hhead] at hpad
  · have hwhole : IsWhole (ds ++ es) := ⟨hdigits, hne, fun hzero =>
      absurd (by rwa [List.head?_append_of_ne_nil _ hds.nonempty] at hzero) hhead⟩
    have hlen := List.length_pos_iff.mpr hds.nonempty
    rw [hwhole.toDigits, List.leftpad, List.length_append, Nat.sub_eq_zero_of_le (by omega),
      List.replicate_zero, List.nil_append]

theorem unsignedChars_point (hds : IsWhole ds) (hes : ∀ c ∈ es, c.isDigit = true) (hne : es ≠ [])
    (hlast : es.getLast? ≠ some '0') :
    (Decimal.ofScaled (Nat.ofDigitChars 10 (ds ++ es) 0) es.length).unsignedChars =
      ds ++ '.' :: es := by
  have hscale : es.length ≠ 0 := mt List.length_eq_zero_iff.mp hne
  have hlowest := ofDigitChars_append_mod_ten ds hes hne hlast
  have hpadded := hds.leftpad_append hes
  have hself := Decimal.ofScaled_self
    ⟨Nat.ofDigitChars 10 (ds ++ es) 0, es.length, .inr (by exact_mod_cast hlowest)⟩
  rw [hself, Decimal.unsignedChars, Int.natAbs_natCast, Decimal.positional]
  simp only [hpadded, hscale, if_false, List.length_append, Nat.add_sub_cancel,
    List.take_left, List.drop_left]

theorem IsTerse.unsignedChars (h : IsTerse cs) (hd : d.toRat = numeralValue cs) :
    d.unsignedChars = cs := by
  cases h.whole_or_point with
  | inl hwhole =>
    rw [← numeralValue_digits hwhole.digits, Decimal.toRat_inj] at hd
    have hself : Decimal.ofScaled (Nat.ofDigitChars 10 cs 0) 0 = Decimal.ofInt _ :=
      Decimal.ofScaled_self (Decimal.ofInt (Nat.ofDigitChars 10 cs 0))
    rw [hd, hself, unsignedChars_ofInt, hwhole.toDigits]
  | inr hpoint =>
    obtain ⟨ds, es, rfl, hds, hes, hne, hlast⟩ := hpoint
    rw [← numeralValue_point hds.digits, Decimal.toRat_inj] at hd
    rw [hd, unsignedChars_point hds hes hne hlast]

theorem exists_digits {n s : Nat} (hs : s ≠ 0) (h : n < 10 ^ s) :
    ∃ es : List Char, (∀ c ∈ es, c.isDigit = true) ∧ es.length = s ∧ Nat.ofDigitChars 10 es 0 = n := by
  have hfits := (Nat.length_toDigits_le_iff (by decide) (Nat.pos_of_ne_zero hs)).mpr h
  refine ⟨(Nat.toDigits 10 n).leftpad s '0', Decimal.isDigit_leftpad (isWhole_toDigits n).digits s,
    ?_, ?_⟩
  · rw [List.leftpad, List.length_append, List.length_replicate]
    omega
  · rw [Decimal.ofDigitChars_leftpad, Nat.ofDigitChars_ten_toDigits]

theorem exists_isTerse (d : Decimal) : ∃ cs, IsTerse cs ∧ d.abs.toRat = numeralValue cs := by
  obtain ⟨m, s, hlowest⟩ := d
  by_cases hs : s = 0
  · subst hs
    have hwhole := isWhole_toDigits m.natAbs
    refine ⟨_, hwhole.isTerse, ?_⟩
    rw [← numeralValue_digits hwhole.digits, Nat.ofDigitChars_ten_toDigits, Decimal.toRat_inj]
    exact (Decimal.ofScaled_self (Decimal.abs ⟨m, 0, hlowest⟩)).symm
  · have hm : m.natAbs % 10 ≠ 0 := by
      have := hlowest.resolve_left hs
      omega
    have hwhole := isWhole_toDigits (m.natAbs / 10 ^ s)
    obtain ⟨es, hdigits, hlen, hvalue⟩ :=
      exists_digits hs (Nat.mod_lt m.natAbs (Nat.pow_pos (by decide)))
    have hne : es ≠ [] := List.ne_nil_of_length_pos (by omega)
    have hlast : es.getLast? ≠ some '0' := by
      intro hzero
      have hten := (ofDigitChars_mod_ten hzero rfl).mpr rfl
      rw [hvalue, Nat.mod_mod_of_dvd _ (dvd_pow_self 10 hs)] at hten
      exact hm hten
    refine ⟨_, isTerse_point hwhole hdigits hne hlast, ?_⟩
    rw [← numeralValue_point hwhole.digits, Decimal.toRat_inj, Nat.ofDigitChars_append,
      Nat.ofDigitChars_ten_toDigits, Nat.ofDigitChars_eq_ofDigitChars_zero, hvalue, hlen,
      Nat.div_add_mod]
    exact (Decimal.ofScaled_self (Decimal.abs ⟨m, s, hlowest⟩)).symm

theorem unsignedChars_abs (d : Decimal) : d.abs.unsignedChars = d.unsignedChars := by
  rw [Decimal.unsignedChars, Decimal.unsignedChars]
  exact congrArg (fun n => Decimal.positional (Nat.toDigits 10 n) d.scale) (Int.natAbs_natCast _)

theorem unsignedChars_neg (d : Decimal) : (-d).unsignedChars = d.unsignedChars := by
  rw [Decimal.unsignedChars, Decimal.unsignedChars]
  exact congrArg (fun n => Decimal.positional (Nat.toDigits 10 n) d.scale) (Int.natAbs_neg _)

theorem isTerse_unsignedChars (d : Decimal) : IsTerse d.unsignedChars := by
  obtain ⟨cs, hterse, hvalue⟩ := exists_isTerse d
  rwa [← unsignedChars_abs, hterse.unsignedChars hvalue]

theorem numeralValue_unsignedChars (d : Decimal) : numeralValue d.unsignedChars = d.abs.toRat := by
  obtain ⟨cs, hterse, hvalue⟩ := exists_isTerse d
  rw [← unsignedChars_abs, hterse.unsignedChars hvalue, hvalue]

/-- A number is written with given characters if they stand for it and none of them is spare. -/
theorem unsignedChars_eq_iff (hd : d.toRat = numeralValue cs) : d.unsignedChars = cs ↔ IsTerse cs := by
  constructor
  · intro h
    rw [← h]
    exact isTerse_unsignedChars d
  · exact fun h => h.unsignedChars hd

end Terse

end DecimalPoly.Grammar
