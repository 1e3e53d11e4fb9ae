import DecimalPoly.Proofs.SparsePoly.NormalForm

/-! Limits that outlast collecting. There are no more terms afterwards, no exponent is new and no
coefficient has more places, whatever meets and cancels. A coefficient is at most as large as all the
terms together. -/
namespace DecimalPoly

/-- Limits to a term: to its exponent, to the places of its coefficient and to the size of that. -/
structure Term.Within (exponent scale : Nat) (size : ℚ) (t : Term) : Prop where
  exponent_le : t.exponent ≤ exponent
  scale_le : t.coefficient.scale ≤ scale
  abs_le : |t.coefficient.toRat| ≤ size

theorem Term.within_of_coefficient_eq {exponent scale size s : Nat} {m : Int} {t : Term}
    (hc : t.coefficient = Decimal.ofScaled m s) (he : t.exponent ≤ exponent) (hs : s ≤ scale)
    (hm : |m| ≤ size) : t.Within exponent scale size := by
  have hvalue : t.coefficient.toRat = m / 10 ^ s := by rw [hc, Decimal.toRat_ofScaled]
  refine ⟨he, (Decimal.scale_le_iff.mpr ⟨m, hvalue⟩).trans hs, ?_⟩
  calc |t.coefficient.toRat|
      = |(m : ℚ)| / 10 ^ s := by
        rw [hvalue, abs_div, abs_of_pos (by positivity : (0 : ℚ) < 10 ^ s)]
    _ ≤ |(m : ℚ)| := div_le_self (abs_nonneg _) (one_le_pow₀ (by norm_num))
    _ ≤ size := by exact_mod_cast hm

variable {ts : List Term} {k : Nat} {size : ℚ}

theorem exists_coefficientSum_eq_div (h : ∀ t ∈ ts, t.coefficient.scale ≤ k) (e : Nat) :
    ∃ m : Int, coefficientSum ts e = m / 10 ^ k := by
  induction ts with
  | nil => exact ⟨0, by rw [Int.cast_zero, zero_div]; rfl⟩
  | cons t ts ih =>
    obtain ⟨ht, hts⟩ := List.forall_mem_cons.mp h
    obtain ⟨m, hm⟩ := ih hts
    rw [coefficientSum_cons, hm]
    by_cases he : t.exponent = e
    · obtain ⟨n, hn⟩ := Decimal.scale_le_iff.mp ht
      exact ⟨n + m, by rw [if_pos he, hn, Int.cast_add, add_div]⟩
    · exact ⟨m, by rw [if_neg he, zero_add]⟩

theorem abs_coefficientSum_le (h : ∀ t ∈ ts, |t.coefficient.toRat| ≤ size) (e : Nat) :
    |coefficientSum ts e| ≤ ts.length * size := by
  induction ts with
  | nil =>
    rw [List.length_nil, Nat.cast_zero, zero_mul]
    exact abs_zero.le
  | cons t ts ih =>
    obtain ⟨ht, hts⟩ := List.forall_mem_cons.mp h
    have hfirst : |if t.exponent = e then t.coefficient.toRat else 0| ≤ size := by
      split
      · exact ht
      · rw [abs_zero]
        exact (abs_nonneg _).trans ht
    calc |coefficientSum (t :: ts) e|
        ≤ |if t.exponent = e then t.coefficient.toRat else 0| + |coefficientSum ts e| := by
          rw [coefficientSum_cons]
          exact abs_add_le ..
      _ ≤ size + ts.length * size := add_le_add hfirst (ih hts)
      _ = (t :: ts).length * size := by
          rw [List.length_cons, Nat.cast_succ]
          ring

namespace SparsePoly

theorem exists_exponent_eq {t : Term} (h : t ∈ (ofTerms ts).support) :
    ∃ s ∈ ts, s.exponent = t.exponent := by
  by_contra hno
  push Not at hno
  refine coefficient_ne_zero_iff.mpr ⟨t, h, rfl⟩ (Decimal.toRat_eq_zero.mp ?_)
  rw [← coeff_value, value_ofTerms]
  exact coeff_valueOf_of_forall_ne hno

theorem nodup_exponents (p : SparsePoly) : (p.support.map Term.exponent).Nodup :=
  List.pairwise_map.mpr (p.descending.imp fun h => (Nat.ne_of_lt h).symm)

theorem length_terms_ofTerms_le (ts : List Term) :
    (ofTerms ts).terms.length ≤ max ts.length 1 := by
  rw [terms]
  split
  · exact Nat.le_max_right ..
  · have hsubset : (ofTerms ts).support.map Term.exponent ⊆ ts.map Term.exponent := by
      intro e he
      obtain ⟨t, ht, rfl⟩ := List.mem_map.mp he
      obtain ⟨s, hs, hst⟩ := exists_exponent_eq ht
      exact List.mem_map.mpr ⟨s, hs, hst⟩
    have hle := (nodup_exponents _).length_le_of_subset hsubset
    rw [List.length_map, List.length_map] at hle
    exact hle.trans (Nat.le_max_left ..)

theorem within_ofTerms {exponent : Nat} (h : ∀ t ∈ ts, t.Within exponent k size) :
    ∀ t ∈ (ofTerms ts).terms, t.Within exponent k (ts.length * size) := by
  intro t ht
  have hsum : t.coefficient.toRat = coefficientSum ts t.exponent := by
    rw [← toRat_coefficient_ofTerms, coefficient_of_mem_terms ht]
  refine ⟨?_, Decimal.scale_le_iff.mpr ?_, ?_⟩
  · rw [terms] at ht
    split at ht
    · rw [List.mem_singleton.mp ht]
      exact Nat.zero_le _
    · obtain ⟨s, hs, hst⟩ := exists_exponent_eq ht
      exact hst ▸ (h s hs).exponent_le
  · rw [hsum]
    exact exists_coefficientSum_eq_div (fun t ht => (h t ht).scale_le) _
  · rw [hsum]
    exact abs_coefficientSum_le (fun t ht => (h t ht).abs_le) _

end SparsePoly
end DecimalPoly
