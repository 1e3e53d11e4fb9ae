import DecimalPoly.Proofs.Binary64.Text
import DecimalPoly.Proofs.Plain.Scanner
import DecimalPoly.Proofs.Plain.WordOperations
import DecimalPoly.Proofs.Text.Acceptance
import DecimalPoly.SparsePoly.Building

/-! Rows from numbers, terms and texts as they are handed in. They are the rows of the polynomials that
are made there, and fail as those do. If a word can count the places of the decimals among them, it can
count those of the row; doubles never have more, and texts with more are not read. -/
namespace DecimalPoly

def Decimal.Fits (d : Decimal) : Prop := d.scale ≤ maxScale

def Term.Fits (t : Term) : Prop := t.coefficient.Fits

def Scalar.Fits : Scalar → Prop
  | .decimal d => d.Fits
  | _ => True

def RawTerm.Fits (raw : RawTerm) : Prop := raw.coefficient.Fits ∧ raw.exponent.Fits

def Source.Fits : Source → Prop
  | .scalar s => s.Fits
  | .terms raws => ∀ raw ∈ raws, raw.Fits
  | .text _ => True

theorem Scalar.Fits.toDecimal {s : Scalar} {d : Decimal} (h : s.Fits) (hd : s.toDecimal = .ok d) :
    d.Fits := by
  cases s with
  | integer n =>
    cases hd
    exact Nat.zero_le _
  | decimal c =>
    cases hd
    exact h
  | double x =>
    rw [Scalar.toDecimal] at hd
    cases hx : x.toDecimal? with
    | none =>
      rw [hx] at hd
      cases hd
    | some c =>
      rw [hx] at hd
      cases hd
      exact Binary64.scale_le_of_toDecimal? hx

theorem RawTerm.Fits.toTerm {raw : RawTerm} {t : Term} (h : raw.Fits) (ht : raw.toTerm = .ok t) :
    t.Fits := by
  obtain ⟨c, hc, ht⟩ := bind_eq_ok.mp (mapError_eq_ok.mp ht)
  obtain ⟨d, -, ht⟩ := bind_eq_ok.mp ht
  obtain ⟨e, -, ⟨⟩⟩ := bind_eq_ok.mp ht
  exact h.1.toDecimal hc

namespace Plain

namespace Row

def constant (c : Decimal) : Row := canonicalize [⟨.ofDecimal c, 0⟩]

def ofScalar (s : Scalar) : Except Failure Row := s.toDecimal.map constant

def ofRawTerms (raws : List RawTerm) : Except Failure Row :=
  (raws.mapM RawTerm.toTerm).map fun ts => canonicalize (ofTerms ts)

def read (text : String) : Except Failure Row := (scan text).outcome.map canonicalize

def ofSource (s : Source) : Except Failure Row :=
  let built := match s with
    | .scalar x => ofScalar x
    | .terms raws => ofRawTerms raws
    | .text t => read t
  built.mapError fun _ => .invalidArgument (.unusable s)

theorem ofScalar_eq (s : Scalar) : ofScalar s = (SparsePoly.ofScalar s).map SparsePoly.row :=
  (map_map_of_eq fun c => (canonicalize_ofTerm (.constant c)).symm).symm

theorem ofRawTerms_eq (raws : List RawTerm) :
    ofRawTerms raws = (SparsePoly.ofRawTerms raws).map SparsePoly.row :=
  (map_map_of_eq fun ts => (canonicalize_ofTerms ts).symm).symm

theorem read_eq_readTerms (text : String) : read text =
    (Reader.readTerms text).outcome.map fun ts => canonicalize (ofTerms ts) := by
  rw [read, (writesOut_scan text).outcome_of]
  exact map_map_of_eq fun _ => rfl

theorem read_eq (text : String) : read text = (SparsePoly.read text).outcome.map SparsePoly.row := by
  have hread : (SparsePoly.read text).outcome =
      (Reader.readTerms text).outcome.map SparsePoly.ofTerms := rfl
  rw [read_eq_readTerms, hread]
  exact (map_map_of_eq fun ts => (canonicalize_ofTerms ts).symm).symm

theorem ofSource_eq (s : Source) :
    ofSource s = (SparsePoly.ofSource s).outcome.map SparsePoly.row := by
  have hblame {x : Except Failure Row} {y : Except Failure SparsePoly} (e : Failure)
      (h : x = y.map SparsePoly.row) :
      (x.mapError fun _ => e) = (y.mapError fun _ => e).map SparsePoly.row := by
    rw [h]
    cases y <;> rfl
  cases s with
  | scalar x => exact hblame _ (ofScalar_eq x)
  | terms raws => exact hblame _ (ofRawTerms_eq raws)
  | text t => exact hblame _ (read_eq t)

section Fits
variable {r : Row}

theorem fits_ofTerms {ts : List Term} (h : ∀ t ∈ ts, t.Fits) : (canonicalize (ofTerms ts)).Fits := by
  refine fits_canonicalize fun t ht => ?_
  obtain ⟨u, hu, rfl⟩ := List.mem_map.mp ht
  exact ⟨u.exponent_le, h u hu⟩

theorem fits_constant {c : Decimal} (h : c.Fits) : (constant c).Fits :=
  fits_canonicalize (List.forall_mem_singleton.mpr ⟨Nat.zero_le _, h⟩)

theorem fits_ofScalar {s : Scalar} (h : s.Fits) (hr : ofScalar s = .ok r) : r.Fits := by
  obtain ⟨c, hc, rfl⟩ := map_eq_ok.mp hr
  exact fits_constant (h.toDecimal hc)

theorem fits_ofRawTerms {raws : List RawTerm} (h : ∀ raw ∈ raws, raw.Fits)
    (hr : ofRawTerms raws = .ok r) : r.Fits := by
  obtain ⟨ts, hts, rfl⟩ := map_eq_ok.mp hr
  refine fits_ofTerms fun t ht => ?_
  obtain ⟨raw, hraw, hterm⟩ := exists_of_mem_mapM hts ht
  exact (h raw hraw).toTerm hterm

theorem fits_read {text : String} (hr : read text = .ok r) : r.Fits := by
  rw [read_eq_readTerms] at hr
  obtain ⟨ts, hts, rfl⟩ := map_eq_ok.mp hr
  exact fits_ofTerms (Grammar.scale_le_of_readTerms hts)

theorem fits_ofSource {s : Source} (h : s.Fits) (hr : ofSource s = .ok r) : r.Fits := by
  have hbuilt := mapError_eq_ok.mp hr
  cases s with
  | scalar x => exact fits_ofScalar h hbuilt
  | terms raws => exact fits_ofRawTerms h hbuilt
  | text t => exact fits_read hbuilt

end Fits
end Row
end Plain
end DecimalPoly
