import DecimalPoly.Binary64
import DecimalPoly.Proofs.Decimal.Quotient

/-! The search on grids of decimals. Numbers of an interval outside the decade of its middle give way to
the power of ten between, which has one digit, so on the grid with `k` digits in that decade there is a
number of the interval if any with `k` digits is in it. The first grid that is hit has the fewest digits,
and on it the neighbour that is chosen is the nearest. -/
namespace DecimalPoly.Binary64
open Decimal

/-- Nearer to `middle`, or as near and not smaller. -/
def Prefers (middle v u : ℚ) : Prop :=
  |v - middle| < |u - middle| ∨ |v - middle| = |u - middle| ∧ u ≤ v

/-- No admitted number has fewer digits than `v`, and of those with as many `v` is preferred. -/
structure IsShortest (Admits : ℚ → Prop) (middle v : ℚ) : Prop where
  admitted : Admits v
  fewest : ∀ u, Admits u → ∀ k, FitsDigits k u → FitsDigits k v
  preferred : ∀ u, Admits u → (∀ k, FitsDigits k v → FitsDigits k u) → Prefers middle v u

theorem Prefers.antisymm {middle v u : ℚ} (h : Prefers middle v u) (h' : Prefers middle u v) :
    v = u := by
  cases h with
  | inl hlt =>
    cases h' with
    | inl hgt => exact absurd hlt hgt.not_gt
    | inr heq => exact absurd hlt heq.1.not_gt
  | inr hle =>
    cases h' with
    | inl hgt => exact absurd hgt hle.1.not_gt
    | inr hge => exact le_antisymm hge.2 hle.2

theorem eq_zero_of_fitsDigits {v : ℚ} (h : FitsDigits 0 v) : v = 0 := by
  obtain ⟨z, j, hz, rfl⟩ := h
  rw [Int.abs_lt_one_iff.mp hz, Int.cast_zero, zero_mul]

section
variable {middle v u w : ℚ}

theorem abs_below (h : v ≤ middle) : |v - middle| = middle - v := by
  rw [abs_of_nonpos (by linarith), neg_sub]

theorem abs_above (h : middle ≤ v) : |v - middle| = v - middle := abs_of_nonneg (by linarith)

theorem prefers_of_le (h : |v - middle| ≤ |u - middle|) (hle : u ≤ v) : Prefers middle v u :=
  h.lt_or_eq.imp_right fun heq => ⟨heq, hle⟩

theorem prefers_below (hv : v ≤ middle) (hle : u ≤ v) : Prefers middle v u := by
  apply prefers_of_le _ hle
  rw [abs_below hv, abs_below (hle.trans hv)]
  linarith

theorem prefers_above (hv : middle ≤ v) (hle : v ≤ u) : Prefers middle v u := by
  rw [Prefers, abs_above hv, abs_above (hv.trans hle)]
  cases hle.eq_or_lt with
  | inl heq => exact .inr ⟨by rw [heq], heq.ge⟩
  | inr hlt => exact .inl (by linarith)

theorem Prefers.of_nearer (h : Prefers middle v w) (hw : w = u ∨ |w - middle| < |u - middle|) :
    Prefers middle v u := by
  cases hw with
  | inl heq => exact heq ▸ h
  | inr hlt =>
    cases h with
    | inl hnear => exact .inl (hnear.trans hlt)
    | inr heven => exact .inl (heven.1.trans_lt hlt)

theorem prefers_mul {c : ℚ} (hc : 0 < c) :
    Prefers (middle * c) (v * c) (u * c) ↔ Prefers middle v u := by
  rw [Prefers, Prefers, ← sub_mul, ← sub_mul, abs_mul, abs_mul, abs_of_pos hc,
    mul_lt_mul_iff_left₀ hc, mul_le_mul_iff_left₀ hc, mul_left_inj' hc.ne']

end

theorem IsShortest.unique {Admits : ℚ → Prop} {middle v u : ℚ} (hv : IsShortest Admits middle v)
    (hu : IsShortest Admits middle u) : v = u :=
  (hv.preferred u hu.admitted (hu.fewest v hv.admitted)).antisymm
    (hu.preferred v hv.admitted (hv.fewest u hu.admitted))

namespace Interval
variable {r : Interval} {u v w : ℚ} {place : ℤ} {n : ℕ}

def Mem (r : Interval) (v : ℚ) : Prop :=
  if r.closed then r.low ≤ v * r.unit ∧ v * r.unit ≤ r.high
  else r.low < v * r.unit ∧ v * r.unit < r.high

def middle (r : Interval) : ℚ := r.mid / r.unit

/-- An interval around its middle that is wide enough for 17 digits. -/
structure Proper (r : Interval) : Prop where
  unit_pos : 0 < r.unit
  low_pos : 0 < r.low
  low_lt : r.low < r.mid
  lt_high : r.mid < r.high
  wide : r.mid < (r.high - r.low) * 10 ^ 16

theorem contains_iff : r.contains n = true ↔ r.Mem n := by
  rw [contains, Mem]
  split
  · rw [decide_eq_true_eq]
    norm_cast
  · rw [decide_eq_true_eq]
    norm_cast

theorem mem_scaled : (r.scaled place).Mem v ↔ r.Mem (v * 10 ^ place) := by
  have hfactor : (0 : ℚ) < 10 ^ (-place).toNat := by positivity
  have hcross : v * (r.unit * 10 ^ place.toNat) =
      v * (10 ^ place.toNat / 10 ^ (-place).toNat) * r.unit * 10 ^ (-place).toNat := by
    field_simp
  rw [Mem, Mem, ten_zpow_eq]
  simp only [scaled]
  push_cast [tenPow_cast]
  rw [hcross]
  simp only [mul_le_mul_iff_left₀ hfactor, mul_lt_mul_iff_left₀ hfactor]

theorem middle_scaled (r : Interval) (place : ℤ) :
    (r.scaled place).middle * 10 ^ place = r.middle := by
  rw [middle, middle, ten_zpow_eq]
  simp only [scaled]
  push_cast [tenPow_cast]
  by_cases hunit : (r.unit : ℚ) = 0
  · simp [hunit]
  · field_simp

theorem Proper.scaled (h : r.Proper) (place : ℤ) : (r.scaled place).Proper := by
  have hfactor : 0 < tenPow (-place).toNat := tenPow_pos _
  constructor
  case unit_pos => exact Nat.mul_pos h.unit_pos (tenPow_pos _)
  case low_pos => exact Nat.mul_pos h.low_pos hfactor
  case low_lt => exact Nat.mul_lt_mul_of_pos_right h.low_lt hfactor
  case lt_high => exact Nat.mul_lt_mul_of_pos_right h.lt_high hfactor
  case wide =>
    change r.mid * _ < (r.high * _ - r.low * _) * _
    rw [← Nat.sub_mul, Nat.mul_right_comm]
    exact Nat.mul_lt_mul_of_pos_right h.wide hfactor

theorem Proper.mem_middle (h : r.Proper) : r.Mem r.middle := by
  have hunit : (r.unit : ℚ) ≠ 0 := by exact_mod_cast h.unit_pos.ne'
  have hlow : (r.low : ℚ) < r.mid := by exact_mod_cast h.low_lt
  have hhigh : (r.mid : ℚ) < r.high := by exact_mod_cast h.lt_high
  rw [Mem, middle, div_mul_cancel₀ _ hunit]
  split
  · exact ⟨hlow.le, hhigh.le⟩
  · exact ⟨hlow, hhigh⟩

theorem Mem.between (hu : r.Mem u) (hw : r.Mem w) (huv : u ≤ v) (hvw : v ≤ w) : r.Mem v := by
  have hlow : u * r.unit ≤ v * r.unit := by gcongr
  have hhigh : v * r.unit ≤ w * r.unit := by gcongr
  rw [Mem] at *
  split
  · next hclosed =>
    rw [if_pos hclosed] at hu hw
    exact ⟨hu.1.trans hlow, hhigh.trans hw.2⟩
  · next hopen =>
    rw [if_neg hopen] at hu hw
    exact ⟨hu.1.trans_le hlow, hhigh.trans_lt hw.2⟩

theorem Proper.pos_of_mem (h : r.Proper) (hv : r.Mem v) : 0 < v := by
  have hlow : (0 : ℚ) < r.low := by exact_mod_cast h.low_pos
  have hunit : (0 : ℚ) < r.unit := by exact_mod_cast h.unit_pos
  have hprod : 0 < v * r.unit := by
    rw [Mem] at hv
    split at hv
    · exact hlow.trans_le hv.1
    · exact hlow.trans hv.1
  exact pos_of_mul_pos_left hprod hunit.le

section Nearest
variable (h : r.Proper)
include h

theorem Proper.middle_eq :
    r.middle = (r.mid / r.unit : ℕ) + ((r.mid % r.unit : ℕ) / r.unit : ℚ) := by
  have hunit : (r.unit : ℚ) ≠ 0 := by exact_mod_cast h.unit_pos.ne'
  have hmid : (r.unit * (r.mid / r.unit : ℕ) + (r.mid % r.unit : ℕ) : ℚ) = r.mid := by
    exact_mod_cast Nat.div_add_mod r.mid r.unit
  rw [middle, ← hmid]
  field_simp

theorem Proper.middle_bounds :
    ((r.mid / r.unit : ℕ) : ℚ) ≤ r.middle ∧ r.middle < (r.mid / r.unit : ℕ) + 1 := by
  have hunit : (0 : ℚ) < r.unit := by exact_mod_cast h.unit_pos
  have hrest : ((r.mid % r.unit : ℕ) : ℚ) < r.unit := by exact_mod_cast Nat.mod_lt _ h.unit_pos
  rw [h.middle_eq, le_add_iff_nonneg_right, add_lt_add_iff_left, div_lt_one hunit]
  exact ⟨by positivity, hrest⟩

theorem Proper.below_half : 2 * (r.mid % r.unit) < r.unit ↔
    r.middle - (r.mid / r.unit : ℕ) < 1 / 2 := by
  have hunit : (0 : ℚ) < r.unit := by exact_mod_cast h.unit_pos
  rw [h.middle_eq, add_sub_cancel_left, div_lt_div_iff₀ hunit two_pos, one_mul, mul_comm]
  exact_mod_cast Iff.rfl

theorem Proper.mem_neighbour {k : ℕ} (hk : r.Mem k) :
    (k ≤ r.mid / r.unit ∧ r.Mem (r.mid / r.unit : ℕ)) ∨
      (r.mid / r.unit + 1 ≤ k ∧ r.Mem (r.mid / r.unit + 1 : ℕ)) := by
  obtain ⟨hlow, hhigh⟩ := h.middle_bounds
  cases Nat.lt_or_ge (r.mid / r.unit) k with
  | inl hlt =>
    refine .inr ⟨hlt, h.mem_middle.between hk ?_ (by exact_mod_cast hlt)⟩
    push_cast
    exact hhigh.le
  | inr hle => exact .inl ⟨hle, hk.between h.mem_middle (by exact_mod_cast hle) hlow⟩

theorem Proper.prefers_lower {k : ℕ} (hk : r.Mem k)
    (hlower : 2 * (r.mid % r.unit) < r.unit ∨ ¬r.Mem (r.mid / r.unit + 1 : ℕ)) :
    Prefers r.middle (r.mid / r.unit : ℕ) k := by
  obtain ⟨hlow, hhigh⟩ := h.middle_bounds
  cases h.mem_neighbour hk with
  | inl hbelow => exact prefers_below hlow (by exact_mod_cast hbelow.1)
  | inr habove =>
    have hhalf := h.below_half.mp (hlower.resolve_right (not_not.mpr habove.2))
    have hle : ((r.mid / r.unit : ℕ) : ℚ) + 1 ≤ k := by exact_mod_cast habove.1
    refine .inl ?_
    rw [abs_below hlow, abs_above (hhigh.le.trans hle)]
    linarith

theorem Proper.prefers_upper {k : ℕ} (hk : r.Mem k)
    (hupper : ¬2 * (r.mid % r.unit) < r.unit ∨ ¬r.Mem (r.mid / r.unit : ℕ)) :
    Prefers r.middle (r.mid / r.unit + 1 : ℕ) k := by
  obtain ⟨hlow, hhigh⟩ := h.middle_bounds
  have hcast : ((r.mid / r.unit + 1 : ℕ) : ℚ) = (r.mid / r.unit : ℕ) + 1 := Nat.cast_succ _
  cases h.mem_neighbour hk with
  | inl hbelow =>
    have hhalf := mt h.below_half.mpr (hupper.resolve_right (not_not.mpr hbelow.2))
    have hle : (k : ℚ) ≤ (r.mid / r.unit : ℕ) := by exact_mod_cast hbelow.1
    rw [hcast]
    apply prefers_of_le _ (by linarith)
    rw [abs_above hhigh.le, abs_below (hle.trans hlow)]
    linarith
  | inr habove => exact prefers_above (hcast ▸ hhigh.le) (by exact_mod_cast habove.1)

theorem Proper.nearest?_eq_none (hn : r.nearest? = none) (k : ℕ) : ¬r.Mem k := by
  intro hk
  have hneither : r.contains (r.mid / r.unit) = false ∧ r.contains (r.mid / r.unit + 1) = false := by
    rw [nearest?] at hn
    split at hn
    · split at hn <;> cases hn
    · cases hn
    · cases hn
    · next hlower hupper => exact ⟨hlower, hupper⟩
  cases h.mem_neighbour hk with
  | inl hbelow => exact Bool.false_ne_true (hneither.1.symm.trans (contains_iff.mpr hbelow.2))
  | inr habove => exact Bool.false_ne_true (hneither.2.symm.trans (contains_iff.mpr habove.2))

theorem Proper.nearest?_eq_some (hn : r.nearest? = some n) :
    r.Mem n ∧ n ≤ r.mid / r.unit + 1 ∧ ∀ k : ℕ, r.Mem k → Prefers r.middle n k := by
  rw [nearest?] at hn
  split at hn
  · next hlower hupper =>
    split at hn
    · next hnear =>
      cases hn
      exact ⟨contains_iff.mp hlower, Nat.le_succ _, fun k hk => h.prefers_lower hk (.inl hnear)⟩
    · next hfar =>
      cases hn
      exact ⟨contains_iff.mp hupper, le_rfl, fun k hk => h.prefers_upper hk (.inl hfar)⟩
  · next hlower hupper =>
    cases hn
    have hout : ¬r.Mem (r.mid / r.unit + 1 : ℕ) := mt contains_iff.mpr (Bool.not_eq_true _ ▸ hupper)
    exact ⟨contains_iff.mp hlower, Nat.le_succ _, fun k hk => h.prefers_lower hk (.inr hout)⟩
  · next hlower hupper =>
    cases hn
    have hout : ¬r.Mem (r.mid / r.unit : ℕ) := mt contains_iff.mpr (Bool.not_eq_true _ ▸ hlower)
    exact ⟨contains_iff.mp hupper, le_rfl, fun k hk => h.prefers_upper hk (.inr hout)⟩
  · cases hn

end Nearest

section Grid
variable {k : ℕ} {d : Decimal}

theorem findSome?_range {β : Type} {f : ℕ → Option β} {b : β}
    (hf : (List.range n).findSome? f = some b) : ∃ k < n, f k = some b ∧ ∀ j < k, f j = none := by
  induction n with
  | zero => cases hf
  | succ n ih =>
    rw [List.range_succ, List.findSome?_append, Option.or_eq_some_iff] at hf
    cases hf with
    | inl hearlier =>
      obtain ⟨k, hk, hit⟩ := ih hearlier
      exact ⟨k, hk.trans (Nat.lt_succ_self n), hit⟩
    | inr hlast =>
      rw [List.findSome?_singleton, List.findSome?_eq_none_iff] at hlast
      exact ⟨n, Nat.lt_succ_self n, hlast.2, fun j hj => hlast.1 j (List.mem_range.mpr hj)⟩


theorem Proper.pointPlace_bounds (h : r.Proper) :
    (10 : ℚ) ^ (r.pointPlace - 1) ≤ r.middle ∧ r.middle < 10 ^ r.pointPlace := by
  have hbounds := ratio_bounds (h.low_pos.trans h.low_lt) h.unit_pos
  rw [pointPlace]
  generalize (numDigits r.mid : ℤ) - numDigits r.unit = gap at *
  have hcompare : (r.scaled gap).unit ≤ (r.scaled gap).mid ↔ 10 ^ gap ≤ r.middle := by
    have hunit : (0 : ℚ) < (r.scaled gap).unit := by exact_mod_cast (h.scaled gap).unit_pos
    have hscale : (0 : ℚ) < 10 ^ gap := by positivity
    rw [← middle_scaled r gap, le_mul_iff_one_le_left hscale, middle, one_le_div hunit]
    norm_cast
  split
  · next hle =>
    rw [add_sub_cancel_right]
    exact ⟨hcompare.mp hle, hbounds.2⟩
  · next hlt => exact ⟨hbounds.1.le, not_le.mp (mt hcompare.mpr hlt)⟩

theorem tenPow_on_grid (i k : ℕ) (point : ℤ) :
    ((10 ^ i : ℕ) : ℚ) * 10 ^ (point - k) = 10 ^ (point - k + i) := by
  rw [Nat.cast_pow, Nat.cast_ofNat, ← zpow_natCast, ← zpow_add₀ (by norm_num), add_comm]

theorem exists_on_grid_of_decade {point : ℤ} (hk : 0 < k) (hlow : 10 ^ (point - 1) ≤ u)
    (hhigh : u < 10 ^ point) (hfits : FitsDigits k u) : ∃ n : ℕ, (n : ℚ) * 10 ^ (point - k) = u := by
  have h10 : (10 : ℚ) ≠ 0 := by norm_num
  have hpos : 0 < u := lt_of_lt_of_le (by positivity) hlow
  have hscale : (0 : ℚ) < 10 ^ (k - point) := by positivity
  have hfirst : (10 : ℚ) ^ (k - 1) = 10 ^ (point - 1) * 10 ^ (k - point) := by
    rw [← zpow_natCast, ← zpow_add₀ h10]
    congr 1
    omega
  have hlast : (10 : ℚ) ^ k = 10 ^ point * 10 ^ (k - point) := by
    rw [← zpow_natCast, ← zpow_add₀ h10, add_sub_cancel]
  have hdecade : InDecade k (|u| * 10 ^ (k - point)) := by
    rw [InDecade, abs_of_pos hpos, hfirst, hlast]
    exact ⟨mul_le_mul_of_nonneg_right hlow hscale.le, mul_lt_mul_of_pos_right hhigh hscale⟩
  obtain ⟨z, hz⟩ := hfits.integer hk hdecade
  have hnonneg : (0 : ℚ) ≤ z := hz ▸ hdecade.pos.le
  obtain ⟨n, rfl⟩ := Int.eq_ofNat_of_zero_le (by exact_mod_cast hnonneg)
  refine ⟨n, ?_⟩
  rw [← Int.cast_natCast, ← hz, abs_of_pos hpos, mul_assoc, ← zpow_add₀ h10, sub_add_sub_cancel,
    sub_self, zpow_zero, mul_one]

/-- A number of the interval with `k` digits is on the grid, or behind the power of ten that ends the
decade. -/
theorem Proper.exists_on_grid (h : r.Proper) (hk : 0 < k) (hu : r.Mem u) (hfits : FitsDigits k u) :
    ∃ n : ℕ, (r.scaled (r.pointPlace - k)).Mem n ∧
      (n * 10 ^ (r.pointPlace - k) = u ∨
        |n * 10 ^ (r.pointPlace - k) - r.middle| < |u - r.middle|) := by
  obtain ⟨hlow, hhigh⟩ := h.pointPlace_bounds
  generalize r.pointPlace = point at *
  simp only [mem_scaled]
  -- outside of the decade of the middle, the power of ten between the two is nearer than `u`
  by_cases hbelow : u < 10 ^ (point - 1)
  · have hpower : ((10 ^ (k - 1) : ℕ) : ℚ) * 10 ^ (point - k) = 10 ^ (point - 1) := by
      rw [tenPow_on_grid]
      congr 1
      omega
    refine ⟨10 ^ (k - 1), ?_, .inr ?_⟩
    · rw [hpower]
      exact hu.between h.mem_middle hbelow.le hlow
    · rw [hpower, abs_below hlow, abs_below (hbelow.le.trans hlow)]
      exact sub_lt_sub_left hbelow _
  by_cases habove : 10 ^ point ≤ u
  · have hpower : ((10 ^ k : ℕ) : ℚ) * 10 ^ (point - k) = 10 ^ point := by
      rw [tenPow_on_grid, sub_add_cancel]
    refine ⟨10 ^ k, ?_, ?_⟩
    · rw [hpower]
      exact h.mem_middle.between hu hhigh.le habove
    · rw [hpower, abs_above hhigh.le, abs_above (hhigh.le.trans habove)]
      exact habove.eq_or_lt.imp_right fun hlt => sub_lt_sub_right hlt _
  obtain ⟨n, hn⟩ := exists_on_grid_of_decade hk (not_lt.mp hbelow) (not_le.mp habove) hfits
  exact ⟨n, hn.symm ▸ hu, .inl hn⟩

theorem Proper.decade_scaled (h : r.Proper) (k : ℕ) :
    (10 : ℚ) ^ ((k : ℤ) - 1) ≤ (r.scaled (r.pointPlace - k)).middle ∧
      (r.scaled (r.pointPlace - k)).middle < 10 ^ (k : ℤ) := by
  have h10 : (10 : ℚ) ≠ 0 := by norm_num
  have hscale : (0 : ℚ) < 10 ^ (r.pointPlace - k) := by positivity
  obtain ⟨hlow, hhigh⟩ := h.pointPlace_bounds
  have hplace : (k : ℤ) - 1 + (r.pointPlace - k) = r.pointPlace - 1 := by ring
  constructor
  · rw [← mul_le_mul_iff_left₀ hscale, middle_scaled, ← zpow_add₀ h10, hplace]
    exact hlow
  · rw [← mul_lt_mul_iff_left₀ hscale, middle_scaled, ← zpow_add₀ h10, add_sub_cancel]
    exact hhigh

theorem Proper.fitsDigits_nearest (h : r.Proper) (hk : 0 < k)
    (hn : (r.scaled (r.pointPlace - k)).nearest? = some n) :
    FitsDigits k (n * 10 ^ (r.pointPlace - k)) := by
  have hproper := h.scaled (r.pointPlace - k)
  obtain ⟨-, hle, -⟩ := hproper.nearest?_eq_some hn
  have hfloor := hproper.middle_bounds.1.trans_lt (h.decade_scaled k).2
  rw [zpow_natCast] at hfloor
  have hlt : (r.scaled (r.pointPlace - k)).mid / (r.scaled (r.pointPlace - k)).unit < 10 ^ k := by
    exact_mod_cast hfloor
  have hfits := fitsDigits_of_le (s := 1) (j := r.pointPlace - k) hk (by decide) (hle.trans hlt)
  rwa [Int.cast_one, one_mul] at hfits

theorem Proper.digits_pos (h : r.Proper) (hu : r.Mem u) (hfits : FitsDigits k u) : 0 < k := by
  apply Nat.pos_of_ne_zero
  rintro rfl
  exact (h.pos_of_mem hu).ne' (eq_zero_of_fitsDigits hfits)

theorem shortest?_eq_some (hd : r.shortest? = some d) : ∃ k n : ℕ, 0 < k ∧
    (r.scaled (r.pointPlace - k)).nearest? = some n ∧ d.toRat = n * 10 ^ (r.pointPlace - k) ∧
    ∀ j : ℕ, 0 < j → j < k → (r.scaled (r.pointPlace - j)).nearest? = none := by
  obtain ⟨i, -, hi, hnone⟩ := findSome?_range hd
  obtain ⟨n, hn, rfl⟩ := Option.map_eq_some_iff.mp hi
  refine ⟨i + 1, n, Nat.succ_pos i, hn, ?_, fun j hj hlt => ?_⟩
  · rw [toRat_ofSignedScale, neg_neg, Int.cast_natCast]
    rfl
  · have hmiss := Option.map_eq_none_iff.mp (hnone (j - 1) (by omega))
    have hplace : r.pointPlace - j = r.pointPlace - (((j - 1 : ℕ) : ℤ) + 1) := by omega
    rwa [hplace]

theorem Proper.isShortest (h : r.Proper) (hd : r.shortest? = some d) :
    IsShortest r.Mem r.middle d.toRat := by
  have h10 : (0 : ℚ) < 10 := by norm_num
  obtain ⟨k, n, hk, hn, hvalue, hnone⟩ := shortest?_eq_some hd
  obtain ⟨hmem, -, hbest⟩ := (h.scaled (r.pointPlace - k)).nearest?_eq_some hn
  have hfew : FitsDigits k d.toRat := hvalue ▸ h.fitsDigits_nearest hk hn
  constructor
  case admitted =>
    rw [hvalue]
    exact mem_scaled.mp hmem
  case fewest =>
    intro u hu j hfits
    have hj := h.digits_pos hu hfits
    refine hfew.mono (not_lt.mp fun hlt => ?_)
    obtain ⟨m, hm, -⟩ := h.exists_on_grid hj hu hfits
    exact (h.scaled _).nearest?_eq_none (hnone j hj hlt) m hm
  case preferred =>
    intro u hu hfits
    obtain ⟨m, hm, hgrid⟩ := h.exists_on_grid hk hu (hfits k hfew)
    have hprefers := (prefers_mul (zpow_pos h10 (r.pointPlace - k))).mpr (hbest m hm)
    rw [middle_scaled, ← hvalue] at hprefers
    exact hprefers.of_nearer hgrid

theorem Proper.exists_mem (h : r.Proper) (hwide : r.unit < r.high - r.low) : ∃ n : ℕ, r.Mem n := by
  have hbelow := Nat.lt_mul_div_succ r.low h.unit_pos
  have habove : r.unit * (r.low / r.unit + 1) ≤ r.low + r.unit := by
    rw [Nat.mul_add, Nat.mul_one]
    exact Nat.add_le_add_right (Nat.mul_div_le _ _) _
  have hlow : r.low < (r.low / r.unit + 1) * r.unit := by rwa [Nat.mul_comm]
  have hhigh : (r.low / r.unit + 1) * r.unit < r.high := by
    rw [Nat.mul_comm]
    omega
  refine ⟨r.low / r.unit + 1, contains_iff.mp ?_⟩
  rw [contains]
  split
  · exact decide_eq_true ⟨hlow.le, hhigh.le⟩
  · exact decide_eq_true ⟨hlow, hhigh⟩

theorem Proper.exists_shortest (h : r.Proper) : ∃ d, r.shortest? = some d := by
  by_contra hno
  have hnone : r.shortest? = none := Option.eq_none_iff_forall_ne_some.mpr (not_exists.mp hno)
  rw [shortest?, List.findSome?_eq_none_iff] at hnone
  have hmiss : (r.scaled (r.pointPlace - (17 : ℕ))).nearest? = none :=
    Option.map_eq_none_iff.mp (hnone 16 (by decide))
  have hproper := h.scaled (r.pointPlace - (17 : ℕ))
  have hdecade : (10 : ℚ) ^ 16 ≤ (r.scaled (r.pointPlace - (17 : ℕ))).middle := (h.decade_scaled 17).1
  generalize r.scaled (r.pointPlace - (17 : ℕ)) = s at *
  have hunit : (0 : ℚ) < s.unit := by exact_mod_cast hproper.unit_pos
  rw [middle, le_div_iff₀ hunit] at hdecade
  have hmiddle : 10 ^ 16 * s.unit ≤ s.mid := by exact_mod_cast hdecade
  have hwide := hproper.wide
  obtain ⟨n, hn⟩ := hproper.exists_mem (by omega)
  exact hproper.nearest?_eq_none hmiss n hn

end Grid

end Interval
end DecimalPoly.Binary64
