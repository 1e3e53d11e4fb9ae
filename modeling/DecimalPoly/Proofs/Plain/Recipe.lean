import DecimalPoly.Document
import DecimalPoly.Proofs.Plain.Sources
import DecimalPoly.Proofs.Sampling.Bytes
import DecimalPoly.Proofs.Sampling.Draws

/-! Every way to make a polynomial, as a tree of constructors and operations. What a tree makes of
rows is the row of what it makes of polynomials, up to the first number that its word cannot hold, and
whatever becomes of such numbers, the rows that can be made are the canonical ones with places that a
word can count. -/
namespace DecimalPoly.Plain

/-- A constructor and what it is given, or an operation and the recipes for its operands. The
default is `zero`. -/
inductive Recipe (Data : Type) where
  | zero
  | one
  | constant (c : Decimal) (h : c.Fits)
  | term (t : Term) (h : t.Fits)
  | terms (ts : List Term) (h : ∀ t ∈ ts, t.Fits)
  | scalar (s : Scalar) (h : s.Fits)
  | rawTerms (raws : List RawTerm) (h : ∀ raw ∈ raws, raw.Fits)
  | source (s : Source) (h : s.Fits)
  | text (s : String)
  | document (data : Data)
  | bytes (bs : List UInt8)
  | draws {limit : Nat} (h : limit ≤ maxExponent) (ds : List (Sampling.Draw limit))
  | neg (p : Recipe Data)
  | add (p q : Recipe Data)
  | sub (p q : Recipe Data)
  | mul (p q : Recipe Data)
  | scalarMul (p : Recipe Data) (c : Decimal) (h : c.Fits)
  | pow (p : Recipe Data) (n : Exponent)
  | derivative (p : Recipe Data)
  | quotient (p q : Recipe Data) (precision : Nat)
  | remainder (p q : Recipe Data) (precision : Nat)
  | sum {n : Nat} (ps : Fin n → Recipe Data)
  | product {n : Nat} (ps : Fin n → Recipe Data)

def gather {α : Type} {n : Nat} (xs : Fin n → Except Halt α) : Except Halt (List α) :=
  (List.finRange n).mapM xs

namespace Recipe
variable {Data ε : Type} (format : StringFormat Data) (readers : Sampling.Readers ε) (w : Words)

def poly : Recipe Data → Except Halt SparsePoly
  | zero => .ok 0
  | one => .ok 1
  | constant c _ => .ok (SparsePoly.constant c)
  | term t _ => .ok (SparsePoly.ofTerm t)
  | terms ts _ => .ok (SparsePoly.ofTerms ts)
  | scalar s _ => report (SparsePoly.ofScalar s)
  | rawTerms raws _ => report (SparsePoly.ofRawTerms raws)
  | source s _ => report (SparsePoly.ofSource s).outcome
  | text s => report (SparsePoly.read s).outcome
  | document data =>
    match SparsePoly.deserialize? format data with
    | none => .error .unread
    | some x => report x.outcome
  | bytes bs => .ok (Sampling.readPolynomial.run bs).1
  | draws h ds => .ok (Sampling.ofDraws h ds)
  | neg p => return -(← p.poly)
  | add p q => return (← p.poly) + (← q.poly)
  | sub p q => return (← p.poly) - (← q.poly)
  | mul p q => do report ((← p.poly).mul? (← q.poly))
  | scalarMul p c _ => return (← p.poly).scalarMul c
  | pow p n => do report ((← p.poly).pow? n)
  | derivative p => return (← p.poly).derivative
  | quotient p q k => do report (SparsePoly.quotient (← p.poly) (← q.poly) k).outcome
  | remainder p q k => do
    let (_, r) ← report (SparsePoly.divRem (← p.poly) (← q.poly) k).outcome
    return r
  | sum ps => return SparsePoly.sum (← gather fun i => (ps i).poly)
  | product ps => do
    (SparsePoly.product (← gather fun i => (ps i).poly)).mapError .violation

def row : Recipe Data → Except Halt Row
  | zero => .ok Row.zero
  | one => .ok Row.one
  | constant c _ => .ok (Row.constant c)
  | term t _ => .ok (Row.canonicalize [.ofTerm t])
  | terms ts _ => .ok (Row.canonicalize (Row.ofTerms ts))
  | scalar s _ => report (Row.ofScalar s)
  | rawTerms raws _ => report (Row.ofRawTerms raws)
  | source s _ => report (Row.ofSource s)
  | text s => report (Row.read s)
  | document data =>
    match format.read? data with
    | none => .error .unread
    | some s => report (Row.read s)
  | bytes bs => ((readers.row.run bs).mapError fun _ => Halt.unread).map Prod.fst
  | draws _ ds => .ok (Row.canonicalize (ds.map Sampling.Draw.entry))
  | neg p => return (← p.row).neg
  | add p q => return (← p.row).add (← q.row)
  | sub p q => return (← p.row).sub (← q.row)
  | mul p q => do (← p.row).mulIn w (← q.row)
  | scalarMul p c _ => do (← p.row).scalarMulIn w (.ofDecimal c)
  | pow p n => do (← p.row).powIn w n
  | derivative p => do (← p.row).derivativeIn w
  | quotient p q k => do (← p.row).quotientIn w (← q.row) k
  | remainder p q k => do
    let (_, r) ← (← p.row).divRemIn w (← q.row) k
    return r
  | sum ps => return Row.sum (← gather fun i => (ps i).row)
  | product ps => do demanded .product (Row.productIn w (← gather fun i => (ps i).row))

end Recipe

theorem report_row (x : Except Failure SparsePoly) :
    report (x.map SparsePoly.row) = (report x).map SparsePoly.row := by
  cases x <;> rfl

theorem mapM_row {α : Type} (f : α → Except Halt SparsePoly) (as : List α) :
    (as.mapM fun a => (f a).map SparsePoly.row) = (as.mapM f).map (List.map SparsePoly.row) := by
  induction as with
  | nil => rfl
  | cons a as ih =>
    rw [List.mapM_cons, List.mapM_cons, ih]
    cases f a with
    | error e => rfl
    | ok p => cases as.mapM f <;> rfl

namespace Recipe
variable {Data ε : Type} {format : StringFormat Data} {readers : Sampling.Readers ε} {w : Words}

theorem row_eq (h : readers.Lawful) (c : Recipe Data) :
    c.row format readers .unlimited = (c.poly format).map SparsePoly.row := by
  induction c with
  | zero => rfl
  | one => exact congrArg Except.ok SparsePoly.row_one.symm
  | constant c _ => exact congrArg Except.ok (Row.canonicalize_ofTerm (.constant c))
  | term t _ => exact congrArg Except.ok (Row.canonicalize_ofTerm t)
  | terms ts _ => exact congrArg Except.ok (Row.canonicalize_ofTerms ts)
  | scalar s _ => exact (congrArg report (Row.ofScalar_eq s)).trans (report_row _)
  | rawTerms raws _ => exact (congrArg report (Row.ofRawTerms_eq raws)).trans (report_row _)
  | source s _ => exact (congrArg report (Row.ofSource_eq s)).trans (report_row _)
  | text s => exact (congrArg report (Row.read_eq s)).trans (report_row _)
  | document data =>
    rw [row, poly, SparsePoly.deserialize?]
    cases format.read? data with
    | none => rfl
    | some s => exact (congrArg report (Row.read_eq s)).trans (report_row _)
  | bytes bs =>
    rw [row, poly, h.row_run, Sampling.rowOf_eq, Sampling.readPolynomial_run]
    rfl
  | draws h ds => exact congrArg Except.ok (Sampling.canonicalize_draws h ds)
  | neg p ihp =>
    rw [row, ihp]
    exact SparsePoly.bind_row fun p => congrArg Except.ok p.row_neg.symm
  | add p q ihp ihq =>
    rw [row, ihp, ihq]
    exact SparsePoly.bind_row fun p => SparsePoly.bind_row fun q =>
      congrArg Except.ok (SparsePoly.row_add p q).symm
  | sub p q ihp ihq =>
    rw [row, ihp, ihq]
    exact SparsePoly.bind_row fun p => SparsePoly.bind_row fun q =>
      congrArg Except.ok (SparsePoly.row_sub p q).symm
  | mul p q ihp ihq =>
    rw [row, ihp, ihq]
    refine SparsePoly.bind_row fun p => SparsePoly.bind_row fun q => ?_
    rw [Row.mulIn_unlimited, SparsePoly.row_mul?, report_row]
  | scalarMul p c _ ihp =>
    rw [row, ihp]
    refine SparsePoly.bind_row fun p => ?_
    rw [Row.scalarMulIn_unlimited, ← SparsePoly.row_scalarMul]
    rfl
  | pow p n ihp =>
    rw [row, ihp]
    refine SparsePoly.bind_row fun p => ?_
    rw [Row.powIn, Row.powFromIn_unlimited, ← report_row, ← SparsePoly.row_pow?]
    rfl
  | derivative p ihp =>
    rw [row, ihp]
    refine SparsePoly.bind_row fun p => ?_
    rw [Row.derivativeIn_unlimited, ← SparsePoly.row_derivative]
    rfl
  | quotient p q k ihp ihq =>
    rw [row, ihp, ihq]
    refine SparsePoly.bind_row fun p => SparsePoly.bind_row fun q => ?_
    rw [Row.quotientIn_unlimited]
    exact Row.quotient_row p q k
  | remainder p q k ihp ihq =>
    rw [row, ihp, ihq]
    refine SparsePoly.bind_row fun p => SparsePoly.bind_row fun q => ?_
    rw [Row.divRemIn_unlimited, Row.divRem_row, report]
    cases (SparsePoly.divRem p q k).outcome <;> rfl
  | sum ps ih =>
    rw [row, gather, funext ih, mapM_row]
    exact SparsePoly.bind_row fun ps => congrArg Except.ok (SparsePoly.row_sum ps).symm
  | product ps ih =>
    rw [row, gather, funext ih, mapM_row]
    refine SparsePoly.bind_row fun ps => ?_
    rw [Row.productIn_unlimited, SparsePoly.row_product?, SparsePoly.product]
    cases SparsePoly.product? ps <;> rfl

/-- A stricter computation makes the same row as a less strict one up to where it stops. -/
theorem upToWords_row {v : Words} (h : v.Stricter w) (c : Recipe Data) :
    UpToWords (c.row format readers v) (c.row format readers w) := by
  induction c with
  | zero | one | constant | term | terms | scalar | rawTerms | source | text | document | bytes
  | draws => exact .refl _
  | neg p ihp => exact ihp.bind fun _ => .refl _
  | add p q ihp ihq | sub p q ihp ihq => exact ihp.bind fun _ => ihq.bind fun _ => .refl _
  | mul p q ihp ihq => exact ihp.bind fun _ => ihq.bind fun _ => Row.upToWords_mulIn h ..
  | scalarMul p c _ ihp => exact ihp.bind fun _ => Row.upToWords_scalarMulIn h ..
  | pow p n ihp => exact ihp.bind fun _ => Row.upToWords_powFromIn h ..
  | derivative p ihp => exact ihp.bind fun _ => Row.upToWords_derivativeIn h _
  | quotient p q k ihp ihq => exact ihp.bind fun _ => ihq.bind fun _ => Row.upToWords_quotientIn h ..
  | remainder p q k ihp ihq =>
    exact ihp.bind fun _ => ihq.bind fun _ => (Row.upToWords_divRemIn h ..).bind fun _ => .refl _
  | sum ps ih => exact (UpToWords.mapM ih _).bind fun _ => .refl _
  | product ps ih => exact (UpToWords.mapM ih _).bind fun _ => (Row.upToWords_productIn h _).demanded _

theorem fits_samples (ss : List Sampling.Sample) : (Sampling.rowOf ss).Fits := by
  refine Row.fits_canonicalize (List.forall_mem_map.mpr fun s _ => ⟨?_, ?_⟩)
  · exact (Nat.le_of_lt_succ s.exponent.2).trans (by decide)
  · exact (Number.scale_normal_le ..).trans ((Nat.le_of_lt_succ s.scale.2).trans (by decide))

theorem fits_draws {limit : Nat} (h : limit ≤ maxExponent) (ds : List (Sampling.Draw limit)) :
    (Row.canonicalize (ds.map Sampling.Draw.entry)).Fits := by
  refine Row.fits_canonicalize (List.forall_mem_map.mpr fun d _ => ⟨?_, ?_⟩)
  · exact (Nat.le_of_lt_succ d.exponent.2).trans h
  · exact (Number.scale_normal_le ..).trans ((Nat.le_of_lt_succ d.scale.2).trans (by decide))

theorem fits_sum {rs : List Row} (h : ∀ r ∈ rs, r.Fits) : (Row.sum rs).Fits :=
  List.foldlRecOn (motive := Row.Fits) rs _ Row.fits_zero fun _ hacc r hr => hacc.add (h r hr)

theorem fits_row (h : readers.Lawful) (hw : w ≠ .unlimited) {c : Recipe Data} {r : Row}
    (hr : c.row format readers w = .ok r) : r.Fits := by
  induction c generalizing r with
  | zero =>
    cases hr
    exact Row.fits_zero
  | one =>
    cases hr
    exact Row.fits_one
  | constant c hc =>
    cases hr
    exact Row.fits_constant hc
  | term t ht =>
    cases hr
    exact Row.fits_ofTerms (List.forall_mem_singleton.mpr ht)
  | terms ts hts =>
    cases hr
    exact Row.fits_ofTerms hts
  | scalar s hs => exact Row.fits_ofScalar hs (mapError_eq_ok.mp hr)
  | rawTerms raws hraws => exact Row.fits_ofRawTerms hraws (mapError_eq_ok.mp hr)
  | source s hs => exact Row.fits_ofSource hs (mapError_eq_ok.mp hr)
  | text s => exact Row.fits_read (mapError_eq_ok.mp hr)
  | document data =>
    rw [row] at hr
    cases hread : format.read? data with
    | none =>
      rw [hread] at hr
      cases hr
    | some s =>
      rw [hread] at hr
      exact Row.fits_read (mapError_eq_ok.mp hr)
  | bytes bs =>
    rw [row, h.row_run] at hr
    cases hr
    exact fits_samples _
  | draws hlimit ds =>
    cases hr
    exact fits_draws hlimit ds
  | neg p ihp =>
    obtain ⟨p, hp, ⟨⟩⟩ := bind_eq_ok.mp hr
    exact (ihp hp).neg
  | add p q ihp ihq =>
    obtain ⟨p, hp, hr⟩ := bind_eq_ok.mp hr
    obtain ⟨q, hq, ⟨⟩⟩ := bind_eq_ok.mp hr
    exact (ihp hp).add (ihq hq)
  | sub p q ihp ihq =>
    obtain ⟨p, hp, hr⟩ := bind_eq_ok.mp hr
    obtain ⟨q, hq, ⟨⟩⟩ := bind_eq_ok.mp hr
    exact (ihp hp).sub (ihq hq)
  | mul p q ihp ihq =>
    obtain ⟨p, hp, hr⟩ := bind_eq_ok.mp hr
    obtain ⟨q, hq, hr⟩ := bind_eq_ok.mp hr
    exact Row.fits_mulIn hw hr
  | scalarMul p c _ ihp =>
    obtain ⟨p, hp, hr⟩ := bind_eq_ok.mp hr
    exact Row.fits_scalarMulIn hw (ihp hp) hr
  | pow p n ihp =>
    obtain ⟨p, hp, hr⟩ := bind_eq_ok.mp hr
    exact Row.fits_powFromIn hw Row.fits_one hr
  | derivative p ihp =>
    obtain ⟨p, hp, hr⟩ := bind_eq_ok.mp hr
    exact Row.fits_derivativeIn hw (ihp hp) hr
  | quotient p q k ihp ihq =>
    obtain ⟨p, hp, hr⟩ := bind_eq_ok.mp hr
    obtain ⟨q, hq, hr⟩ := bind_eq_ok.mp hr
    exact Row.fits_quotientIn hw (ihp hp) hr
  | remainder p q k ihp ihq =>
    obtain ⟨p, hp, hr⟩ := bind_eq_ok.mp hr
    obtain ⟨q, hq, hr⟩ := bind_eq_ok.mp hr
    obtain ⟨⟨quotient, rest⟩, hdivided, ⟨⟩⟩ := bind_eq_ok.mp hr
    exact (Row.fits_divRemIn hw (ihp hp) hdivided).2
  | sum ps ih =>
    obtain ⟨rs, hrs, ⟨⟩⟩ := bind_eq_ok.mp hr
    refine fits_sum fun r hr => ?_
    obtain ⟨i, -, hi⟩ := exists_of_mem_mapM hrs hr
    exact ih i hi
  | product ps ih =>
    obtain ⟨rs, hrs, hr⟩ := bind_eq_ok.mp hr
    exact Row.fits_productIn hw (mapError_eq_ok.mp hr)

/-- Recipes for rows follow those for polynomials, and stricter words only stop them earlier. Whether
words stop them or wrap around, no recipe leaves the canonical form: exponents fall strictly, and no
coefficient is zero unless the row is the one of zero, and all are in lowest terms. Every canonical row
can be made whose places the words can count, and no other. -/
theorem exists_row_iff_canonical (format : StringFormat Data) (h : readers.Lawful) :
    (∀ c : Recipe Data, c.row format readers .unlimited = (c.poly format).map SparsePoly.row) ∧
    (∀ (c : Recipe Data) (v w : Words), v.Stricter w →
      UpToWords (c.row format readers v) (c.row format readers w)) ∧
    ∀ w : Words, w ≠ .unlimited → ∀ r : Row,
      (∃ c : Recipe Data, c.row format readers w = .ok r) ↔
        r.Canonical ∧ ∀ t ∈ r, t.coefficient.scale ≤ maxScale := by
  refine ⟨row_eq h, fun c v w hvw => upToWords_row hvw c, fun w hw r => ⟨?_, ?_⟩⟩
  · intro hmade
    obtain ⟨c, hc⟩ := hmade
    have hfits := fits_row h hw hc
    exact ⟨hfits.canonical, hfits.scale_le⟩
  · intro hr
    obtain ⟨hcanonical, hscale⟩ := hr
    obtain ⟨p, rfl⟩ := hcanonical.exists_row
    refine ⟨terms p.terms fun t ht => hscale _ (List.mem_map_of_mem ht), ?_⟩
    change Except.ok (Row.canonicalize (Row.ofTerms p.terms)) = _
    rw [Row.canonicalize_ofTerms, SparsePoly.ofTerms_terms]

/-- With words that wrap around, a row that is made and two that no recipe makes: one with a zero at the
end of a mantissa, the other with exponents that rise. -/
theorem exists_row_iff_canonical_wrapping :
    let readers : Sampling.Readers Empty := .plain
    let made (r : Row) := ∃ c : Recipe Document, c.row Document.strings readers .wraps = .ok r
    readers.Lawful ∧ Words.wraps ≠ .unlimited ∧ Words.Stricter .stops .wraps ∧
      made [⟨⟨-15, 1⟩, 10⟩, ⟨⟨1, 0⟩, 1⟩] ∧ ¬made [⟨⟨50, 1⟩, 0⟩] ∧ ¬made [⟨⟨1, 0⟩, 1⟩, ⟨⟨1, 0⟩, 10⟩] ∧
      ∀ c : Recipe Document, UpToWords (c.row Document.strings readers .stops)
        (c.row Document.strings readers .wraps) := by
  intro readers made
  have hreaders : readers.Lawful := Sampling.Readers.lawful_plain
  obtain ⟨-, hstrict, hmade⟩ := exists_row_iff_canonical Document.strings hreaders
  have hwraps := hmade .wraps (by decide)
  refine ⟨hreaders, by decide, .stops, (hwraps _).mpr ⟨⟨.inr ?_, by decide, by decide⟩, by decide⟩,
    fun h => ?_, fun h => ?_, fun c => hstrict c _ _ .stops⟩
  · simp [Row.Descending, Number.isZero]
  · exact absurd (((hwraps _).mp h).1.lowest _ List.mem_cons_self) (by decide)
  · cases ((hwraps _).mp h).1.form with
    | inl hzero => exact absurd hzero (by decide)
    | inr hform => exact absurd hform.2.1 (by simp [Row.Descending])

end Recipe
end DecimalPoly.Plain
