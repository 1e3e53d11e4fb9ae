import DecimalPoly.Proofs.SparsePoly.Bounds
import DecimalPoly.Sampling.Draws

/-! Random polynomials, whatever is drawn. The generator of rows asks a source of random integers for
a mantissa, a scale and an exponent at a time. From a source that keeps to the ranges that it is asked
for it makes the row of a polynomial of as many draws, and every list of draws comes from some source
of this kind. -/
namespace DecimalPoly
namespace Sampling
open Plain

namespace Draw
variable {limit : Nat}

def entry (d : Draw limit) : Entry :=
  ⟨.normal ((d.mantissa : Nat) - 1000000 : Int) d.scale, d.exponent⟩

theorem ofTerm_term (h : limit ≤ maxExponent) (d : Draw limit) :
    Entry.ofTerm (d.term h) = d.entry := by
  rw [entry, Number.normal_eq]
  rfl

theorem within_term (h : limit ≤ maxExponent) (d : Draw limit) :
    (d.term h).Within limit 3 1000000 := by
  have hlt := d.mantissa.2
  have hm : |((d.mantissa : Nat) - 1000000 : Int)| ≤ (1000000 : Nat) :=
    abs_le.mpr ⟨by omega, by omega⟩
  have hwithin := Term.within_of_coefficient_eq (t := d.term h) rfl
    (Nat.le_of_lt_succ d.exponent.2) (Nat.le_of_lt_succ d.scale.2) hm
  exact_mod_cast hwithin

theorem exists_entry {m s e : Int} (hm : -1000000 ≤ m ∧ m ≤ 1000000) (hs : 0 ≤ s ∧ s ≤ 3)
    (he : 0 ≤ e ∧ e ≤ limit) : ∃ d : Draw limit, d.entry = ⟨.normal m s.toNat, e.toNat⟩ := by
  refine ⟨⟨⟨(m + 1000000).toNat, by omega⟩, ⟨s.toNat, by omega⟩, ⟨e.toNat, by omega⟩⟩, ?_⟩
  have hback : ((m + 1000000).toNat - 1000000 : Int) = m := by omega
  rw [entry, hback]

def rolls (d : Draw limit) : List Int := [(d.mantissa : Nat) - 1000000, d.scale, d.exponent]

end Draw

theorem canonicalize_draws {limit : Nat} (h : limit ≤ maxExponent) (ds : List (Draw limit)) :
    Row.canonicalize (ds.map Draw.entry) = (ofDraws h ds).row :=
  Row.canonicalize_map (Draw.ofTerm_term h) ds

/-- A source of random integers, which is asked for one from `low` to `high`. -/
structure Dice (σ : Type) where
  roll (low high : Int) : StateM σ Int

namespace Dice
variable {σ : Type} {dice : Dice σ} {limit : Nat}

/-- Where a range has integers, one of them is rolled. -/
def Fair (dice : Dice σ) : Prop :=
  ∀ low high, low ≤ high → ∀ s,
    low ≤ (dice.roll low high s).1 ∧ (dice.roll low high s).1 ≤ high

def entry (dice : Dice σ) (limit : Nat) : StateM σ Entry := do
  let mantissa ← dice.roll (-1000000) 1000000
  let scale ← dice.roll 0 3
  let exponent ← dice.roll 0 limit
  return ⟨.normal mantissa scale.toNat, exponent.toNat⟩

def entries (dice : Dice σ) (limit : Nat) : Nat → StateM σ Row
  | 0 => return []
  | n + 1 => do
    let t ← dice.entry limit
    let ts ← dice.entries limit n
    return t :: ts

def row (dice : Dice σ) (limit count : Nat) : StateM σ Row := do
  return Row.canonicalize (← dice.entries limit count)

theorem row_run (dice : Dice σ) (limit count : Nat) (s : σ) : ((dice.row limit count).run s).1 =
    Row.canonicalize (dice.entries limit count s).1 := rfl

theorem entry_eq {s s₁ s₂ s₃ : σ} {m k e : Int} (hm : dice.roll (-1000000) 1000000 s = (m, s₁))
    (hk : dice.roll 0 3 s₁ = (k, s₂)) (he : dice.roll 0 limit s₂ = (e, s₃)) :
    dice.entry limit s = (⟨.normal m k.toNat, e.toNat⟩, s₃) := by
  change (let (m, s) := dice.roll (-1000000) 1000000 s
    let (k, s) := dice.roll 0 3 s
    let (e, s) := dice.roll 0 limit s
    ((⟨.normal m k.toNat, e.toNat⟩, s) : Entry × σ)) = _
  simp only [hm, hk, he]

theorem entries_succ {s s₁ s₂ : σ} {n : Nat} {t : Entry} {ts : Row}
    (ht : dice.entry limit s = (t, s₁)) (hts : dice.entries limit n s₁ = (ts, s₂)) :
    dice.entries limit (n + 1) s = (t :: ts, s₂) := by
  change (let (t, s) := dice.entry limit s
    let (ts, s) := dice.entries limit n s
    ((t :: ts, s) : Row × σ)) = _
  simp only [ht, hts]

theorem Fair.exists_draw (h : dice.Fair) (limit : Nat) (s : σ) :
    ∃ d : Draw limit, d.entry = (dice.entry limit s).1 :=
  Draw.exists_entry (h _ _ (by decide) _) (h _ _ (by decide) _) (h _ _ (Int.natCast_nonneg _) _)

theorem Fair.exists_draws (h : dice.Fair) (limit n : Nat) (s : σ) :
    ∃ ds : List (Draw limit), ds.length = n ∧ ds.map Draw.entry = (dice.entries limit n s).1 := by
  induction n generalizing s with
  | zero => exact ⟨[], rfl, rfl⟩
  | succ n ih =>
    obtain ⟨d, hd⟩ := h.exists_draw limit s
    obtain ⟨ds, hlength, hds⟩ := ih (dice.entry limit s).2
    exact ⟨d :: ds, congrArg Nat.succ hlength, congrArg₂ List.cons hd hds⟩

section Playback

/-- Rolls the integers of a list, and the lower end of the range where the next is none of it. -/
def playback : Dice (List Int) where
  roll low high := fun ks =>
    (if low ≤ ks.headD low ∧ ks.headD low ≤ high then ks.headD low else low, ks.tail)

theorem fair_playback : playback.Fair := by
  intro low high hle ks
  change low ≤ (if _ then _ else _) ∧ (if _ then _ else _) ≤ _
  split
  · assumption
  · exact ⟨le_rfl, hle⟩

theorem playback_roll {low high k : Int} (h : low ≤ k ∧ k ≤ high) (ks : List Int) :
    playback.roll low high (k :: ks) = (k, ks) := congrArg (·, ks) (if_pos h)

theorem playback_entry (d : Draw limit) (ks : List Int) :
    playback.entry limit (d.rolls ++ ks) = (d.entry, ks) := by
  have hlt := d.mantissa.2
  exact entry_eq (playback_roll ⟨by omega, by omega⟩ _) (playback_roll ⟨by omega, by omega⟩ _)
    (playback_roll ⟨by omega, by omega⟩ _)

theorem playback_entries (ds : List (Draw limit)) (ks : List Int) :
    playback.entries limit ds.length (ds.flatMap Draw.rolls ++ ks) = (ds.map Draw.entry, ks) := by
  induction ds with
  | nil => rfl
  | cons d ds ih =>
    rw [List.flatMap_cons, List.append_assoc]
    exact entries_succ (playback_entry d _) ih

end Playback

section Generator
variable {Gen : Type} [RandomGen Gen]

def ofGen : Dice Gen where
  roll low high := do
    let k ← drawBelow (high - low).toNat
    return low + (k : Nat)

theorem ofGen_roll {low high : Int} {n : Nat} (h : (high - low).toNat = n) (g : Gen) :
    ofGen.roll low high g = (low + ((drawBelow n g).1 : Nat), (drawBelow n g).2) := by
  subst h
  rfl

theorem fair_ofGen : (ofGen : Dice Gen).Fair := by
  intro low high hle s
  rw [ofGen_roll rfl]
  have := (drawBelow (high - low).toNat s).1.2
  exact ⟨by omega, by omega⟩

theorem ofGen_entry (g : Gen) :
    ofGen.entry limit g = ((draw limit g).1.entry, (draw limit g).2) := by
  have hm : ((1000000 : Int) - -1000000).toNat = 2000000 := rfl
  have hk : ((3 : Int) - 0).toNat = 3 := rfl
  have he : ((limit : Int) - 0).toNat = limit := by omega
  rw [entry_eq (ofGen_roll hm g) (ofGen_roll hk _) (ofGen_roll he _), Int.add_comm, Int.zero_add,
    Int.zero_add, Int.toNat_natCast, Int.toNat_natCast]
  rfl

theorem ofGen_entries (n : Nat) (g : Gen) :
    ofGen.entries limit n g = ((draws limit n g).1.map Draw.entry, (draws limit n g).2) := by
  induction n generalizing g with
  | zero => rfl
  | succ n ih => exact entries_succ (ofGen_entry g) (ih _)

end Generator

end Dice

/-- What is sure of a row of `count` random terms with exponents up to `limit`. -/
structure Bounded (limit count : Nat) (r : Row) : Prop where
  canonical : r.Canonical
  length_le : r.length ≤ max count 1
  exponent_le : ∀ t ∈ r, t.exponent ≤ limit
  scale_le : ∀ t ∈ r, t.coefficient.scale ≤ 3
  abs_le : ∀ t ∈ r, |t.coefficient.toRat| ≤ 1000000 * count
  eq_zero : count = 0 → r = Row.zero

variable {limit count : Nat}

theorem bounded_ofDraws (h : limit ≤ maxExponent) {ds : List (Draw limit)} (hds : ds.length = count) :
    Bounded limit count (ofDraws h ds).row := by
  have hlength : (ds.map (Draw.term h)).length = count := by rw [List.length_map, hds]
  have hwithin := SparsePoly.within_ofTerms
    (List.forall_mem_map.mpr fun d (_ : d ∈ ds) => d.within_term h)
  constructor
  case canonical => exact SparsePoly.canonical_row _
  case length_le =>
    rw [SparsePoly.row, Row.ofTerms, List.length_map, ← hlength]
    exact SparsePoly.length_terms_ofTerms_le _
  case exponent_le => exact List.forall_mem_map.mpr fun t ht => (hwithin t ht).exponent_le
  case scale_le => exact List.forall_mem_map.mpr fun t ht => (hwithin t ht).scale_le
  case abs_le =>
    rw [← hlength]
    refine List.forall_mem_map.mpr fun t ht => ?_
    rw [mul_comm]
    exact (hwithin t ht).abs_le
  case eq_zero =>
    rintro rfl
    rw [List.length_eq_zero_iff.mp hds]
    rfl

theorem randomPolynomial_row (h : limit ≤ maxExponent) (count : Nat) {Gen : Type} [RandomGen Gen]
    (g : Gen) : ((Dice.ofGen.row limit count).run g).1 = (randomPolynomial h count g).row := by
  rw [Dice.row_run, Dice.ofGen_entries, canonicalize_draws h]
  rfl

/-- Whatever is rolled, a random row has the bounds of its draws, also where terms meet and cancel. What
fair dice make is a row of draws, every row of draws is made by fair dice, and the numbers of a
generator are fair dice that make the random polynomial. -/
theorem random_row_bounds (h : limit ≤ maxExponent) (count : Nat) :
    (∀ {σ : Type} {dice : Dice σ}, dice.Fair → ∀ s : σ,
      let r := ((dice.row limit count).run s).1
      Bounded limit count r ∧
        ∃ ds : List (Draw limit), ds.length = count ∧ (ofDraws h ds).row = r) ∧
    (∀ ds : List (Draw limit), ds.length = count → Bounded limit count (ofDraws h ds).row ∧
      ∃ (σ : Type) (dice : Dice σ) (s : σ), dice.Fair ∧
        ((dice.row limit count).run s).1 = (ofDraws h ds).row) ∧
    ∀ {Gen : Type} [RandomGen Gen] (g : Gen),
      Bounded limit count (randomPolynomial h count g).row ∧ (Dice.ofGen : Dice Gen).Fair ∧
        ((Dice.ofGen.row limit count).run g).1 = (randomPolynomial h count g).row := by
  have hfair {σ : Type} {dice : Dice σ} (hdice : dice.Fair) (s : σ) :
      ∃ ds : List (Draw limit), ds.length = count ∧
        (ofDraws h ds).row = ((dice.row limit count).run s).1 := by
    obtain ⟨ds, hlength, hds⟩ := hdice.exists_draws limit count s
    refine ⟨ds, hlength, ?_⟩
    rw [Dice.row_run, ← hds, canonicalize_draws]
  refine ⟨fun hdice s => ?_, fun ds hds => ⟨bounded_ofDraws h hds, ?_⟩,
    fun {Gen} _ g => ?_⟩
  · obtain ⟨ds, hlength, hds⟩ := hfair hdice s
    exact ⟨hds ▸ bounded_ofDraws h hlength, ds, hlength, hds⟩
  · refine ⟨_, Dice.playback, ds.flatMap Draw.rolls ++ [], Dice.fair_playback, ?_⟩
    rw [Dice.row_run, ← hds, Dice.playback_entries, canonicalize_draws]
  · have hgen : (Dice.ofGen : Dice Gen).Fair := Dice.fair_ofGen
    obtain ⟨ds, hlength, hds⟩ := hfair hgen g
    rw [randomPolynomial_row h] at hds
    exact ⟨hds ▸ bounded_ofDraws h hlength, hgen, randomPolynomial_row h count g⟩

theorem random_row_bounds_merging :
    let ds : List (Draw 5) := [⟨1999999, 3, 5⟩, ⟨1000001, 3, 5⟩, ⟨0, 0, 5⟩]
    let ks : List Int := [999999, 3, 5, 1, 3, 5, -1000000, 0, 5]
    5 ≤ maxExponent ∧ ds.length = 3 ∧ Dice.playback.Fair ∧
      ((Dice.playback.row 5 3).run ks).1 = [⟨⟨-999000, 0⟩, 5⟩] ∧
      Bounded 5 3 [⟨⟨-999000, 0⟩, 5⟩] ∧ Bounded 5 3 (ofDraws (by decide) ds).row := by
  intro ds ks
  have h : 5 ≤ maxExponent := by decide
  have hrow : ((Dice.playback.row 5 3).run ks).1 = [⟨⟨-999000, 0⟩, 5⟩] := by decide +kernel
  obtain ⟨hrolled, hdrawn, -⟩ := random_row_bounds h 3
  exact ⟨h, rfl, Dice.fair_playback, hrow, hrow ▸ (hrolled Dice.fair_playback ks).1,
    (hdrawn ds rfl).1⟩

end Sampling
end DecimalPoly
