import DecimalPoly.Proofs.Plain.Division
import DecimalPoly.Proofs.Plain.Words

/-! Operations on rows whose coefficients are multiplied and divided in words. Sums and changes of sign
need none. Without limits the results are those of rows of any size, a stricter computation has the
results of a less strict one up to where it stops, and as long as there are limits no result has more
places than a word can count. -/
namespace DecimalPoly.Plain

def report {α : Type} (x : Except Failure α) : Except Halt α := x.mapError .failure

/-- Where success is demanded, a failure breaks the demand. -/
def demanded {α : Type} (d : Demand) (x : Except Halt α) : Except Halt α :=
  x.mapError fun
    | .failure e => .violation ⟨d, e⟩
    | halt => halt

section
variable (w : Words)

namespace Entry

def mulIn (t u : Entry) : Except Halt Entry :=
  if t.exponent + u.exponent ≤ maxExponent then do
    return ⟨← t.coefficient.mulIn w u.coefficient, t.exponent + u.exponent⟩
  else .error (.failure (.exponentOverflow t.exponent u.exponent))

def scaleIn (c : Number) (t : Entry) : Except Halt Entry := do
  return ⟨← t.coefficient.mulIn w c, t.exponent⟩

def derivativeIn (t : Entry) : Except Halt Entry := do
  return ⟨← t.coefficient.mulIn w (.ofInt t.exponent), t.exponent - 1⟩

end Entry

namespace Row

def mulIn (r s : Row) : Except Halt Row := do
  return canonicalize (← (pairs r s).mapM fun (t, u) => t.mulIn w u)

def scalarMulIn (r : Row) (c : Number) : Except Halt Row := do
  return canonicalize (← r.mapM (Entry.scaleIn w c))

def derivativeIn (r : Row) : Except Halt Row := do
  return canonicalize (← (r.filter fun t => 0 < t.exponent).mapM (Entry.derivativeIn w))

def powFromIn (acc square : Row) (n : Nat) : Except Halt Row :=
  if n = 0 then .ok acc
  else (if n % 2 = 1 then acc.mulIn w square else .ok acc) >>= fun acc =>
    if n / 2 = 0 then .ok acc
    else do powFromIn acc (← square.mulIn w square) (n / 2)
termination_by n

def powIn (r : Row) (n : Nat) : Except Halt Row := powFromIn w one r n

def productIn (rs : List Row) : Except Halt Row := rs.foldlM (mulIn w) one

def takeAwayIn (c : Number) (shift : Nat) : Row → Buffer → Except Halt Buffer
  | [], buffer => .ok buffer
  | t :: b, buffer => do
    let i ← w.index t.exponent shift
    let x ← buffer.read i
    let multiple ← c.mulIn w t.coefficient
    takeAwayIn c shift b (← buffer.update i fun _ => x.sub multiple)

def eliminateIn (b : Row) (lead : Entry) (precision : Nat) : Nat → Buffer → Except Halt Row
  | 0, _ => .ok []
  | n + 1, buffer => do
    let x ← buffer.read (lead.exponent + n)
    match ← x.divIn? w lead.coefficient precision with
    | none => .error (.failure .divisionByZero)
    | some c =>
      if c.isZero then eliminateIn b lead precision n buffer
      else
        let found ← eliminateIn b lead precision n (← takeAwayIn w c n b buffer)
        return ⟨c, n⟩ :: found

def quotientIn (a b : Row) (precision : Nat) : Except Halt Row := do
  let lead ← b.leading
  if lead.coefficient.isZero then .error (.failure .divisionByZero)
  else
    let first ← a.leading
    if first.exponent < lead.exponent then return zero
    else
      let buffer ← a.expand first.exponent
      let found ← eliminateIn w b lead precision (first.exponent - lead.exponent + 1) buffer
      return canonicalize found

def divRemIn (a b : Row) (precision : Nat) : Except Halt (Row × Row) := do
  let q ← a.quotientIn w b precision
  let m ← demanded .product (q.mulIn w b)
  return (q, a.sub m)

end Row
end

section Unlimited

theorem Entry.mulIn_unlimited (t u : Entry) : t.mulIn .unlimited u = report (t.mul? u) := by
  rw [mulIn, mul?]
  split
  · rw [Number.mulIn_unlimited]
    rfl
  · rfl

theorem report_bind {α β : Type} (x : Except Failure α) (f : α → Except Failure β) :
    report (x >>= f) = report x >>= fun a => report (f a) := by
  cases x <;> rfl

theorem report_mapM {α β : Type} (f : α → Except Failure β) (as : List α) :
    report (as.mapM f) = as.mapM fun a => report (f a) := by
  induction as with
  | nil => rfl
  | cons a as ih =>
    rw [List.mapM_cons, List.mapM_cons, report_bind, ← ih]
    exact congrArg _ (funext fun b => report_bind _ _)

theorem report_foldlM {α β : Type} (f : β → α → Except Failure β) (as : List α) (b : β) :
    report (as.foldlM f b) = as.foldlM (fun b a => report (f b a)) b := by
  induction as generalizing b with
  | nil => rfl
  | cons a as ih =>
    rw [List.foldlM_cons, List.foldlM_cons, report_bind]
    exact congrArg _ (funext ih)

namespace Row

theorem mulIn_unlimited (r s : Row) : r.mulIn .unlimited s = report (r.mul? s) := by
  rw [mulIn, mul?, report_bind, report_mapM]
  simp only [← Entry.mulIn_unlimited]
  rfl

theorem scalarMulIn_unlimited (r : Row) (c : Number) :
    r.scalarMulIn .unlimited c = .ok (r.scalarMul c) := by
  have hscale : Entry.scaleIn .unlimited c = fun t => pure (t.scale c) := by
    funext t
    rw [Entry.scaleIn, Number.mulIn_unlimited]
    rfl
  rw [scalarMulIn, hscale, List.mapM_pure]
  rfl

theorem derivativeIn_unlimited (r : Row) : r.derivativeIn .unlimited = .ok r.derivative := by
  have hderivative : Entry.derivativeIn .unlimited = fun t => pure t.derivative := by
    funext t
    rw [Entry.derivativeIn, Number.mulIn_unlimited]
    rfl
  rw [derivativeIn, hderivative, List.mapM_pure]
  rfl

theorem powFromIn_unlimited (acc square : Row) (n : Nat) :
    powFromIn .unlimited acc square n = report (powFrom acc square n) := by
  induction n using Nat.strongRecOn generalizing acc square with
  | ind n ih =>
    by_cases hn : n = 0
    · rw [powFromIn, powFrom, if_pos hn, if_pos hn]
      rfl
    have hstep : powFrom acc square n =
        (if n % 2 = 1 then acc.mul? square else .ok acc) >>= fun acc =>
          if n / 2 = 0 then .ok acc
          else square.mul? square >>= fun s => powFrom acc s (n / 2) := by
      rw [powFrom, if_neg hn]
      by_cases hodd : n % 2 = 1
      · simp only [if_pos hodd]
      · simp only [if_neg hodd]
    have hacc : (if n % 2 = 1 then acc.mulIn .unlimited square else .ok acc) =
        report (if n % 2 = 1 then acc.mul? square else .ok acc) := by
      split
      · exact mulIn_unlimited ..
      · rfl
    rw [powFromIn, if_neg hn, hstep, report_bind, hacc]
    refine congrArg _ (funext fun acc => ?_)
    split
    · rfl
    · rw [mulIn_unlimited, report_bind]
      exact congrArg _ (funext fun s => ih (n / 2) (Nat.div_lt_self (by omega) (by decide)) acc s)

theorem productIn_unlimited (rs : List Row) : productIn .unlimited rs = report (product? rs) := by
  rw [productIn, product?, report_foldlM]
  exact congrArg (fun f => rs.foldlM f one) (funext fun r => funext fun s => mulIn_unlimited r s)

theorem takeAwayIn_unlimited (b : Row) (c : Number) (shift : Nat) (buffer : Buffer) :
    takeAwayIn .unlimited c shift b buffer = takeAway b c shift buffer := by
  have hcell (t : Entry) (i : Nat) (buffer : Buffer) : (buffer.read i >>= fun x =>
      c.mulIn .unlimited t.coefficient >>= fun m => buffer.update i fun _ => x.sub m) =
      buffer.update i (Entry.lessen c t) := by
    rw [Buffer.read, Buffer.update, Number.mulIn_unlimited]
    split
    · next h =>
      rw [ok_bind, ok_bind, Buffer.update, dif_pos h]
      rfl
    · rfl
  induction b generalizing buffer with
  | nil => rfl
  | cons t b ih =>
    rw [takeAwayIn, takeAway, Buffer.updateAll]
    refine congrArg _ (funext fun i => ?_)
    rw [← hcell, bind_assoc]
    refine congrArg _ (funext fun x => ?_)
    rw [bind_assoc]
    exact congrArg _ (funext fun m => congrArg _ (funext ih))

theorem eliminateIn_unlimited (b : Row) (lead : Entry) (precision n : Nat) (buffer : Buffer) :
    eliminateIn .unlimited b lead precision n buffer = eliminate b lead precision n buffer := by
  induction n generalizing buffer with
  | zero => rfl
  | succ n ih =>
    rw [eliminateIn, eliminate]
    refine congrArg _ (funext fun x => ?_)
    rw [Number.divIn?_unlimited, ok_bind]
    cases x.div? lead.coefficient precision with
    | none => rfl
    | some c => simp only [ih, takeAwayIn_unlimited]

theorem quotientIn_unlimited (a b : Row) (precision : Nat) :
    a.quotientIn .unlimited b precision = a.quotient b precision := by
  simp only [quotientIn, quotient, eliminateIn_unlimited]

theorem divRemIn_unlimited (a b : Row) (precision : Nat) :
    a.divRemIn .unlimited b precision = a.divRem b precision := by
  have hdemand (q : Row) : demanded .product (q.mulIn .unlimited b) = q.mul b := by
    rw [mulIn_unlimited, mul]
    cases q.mul? b <;> rfl
  simp only [divRemIn, divRem, quotientIn_unlimited, hdemand]

end Row
end Unlimited

theorem UpToWords.demanded {α : Type} {x y : Except Halt α} (d : Demand) (h : UpToWords x y) :
    UpToWords (demanded d x) (demanded d y) :=
  h.imp (congrArg _) (congrArg _)

section Strict
variable {v w : Words} (h : v.Stricter w)
include h

namespace Row

theorem upToWords_mulIn (r s : Row) : UpToWords (r.mulIn v s) (r.mulIn w s) := by
  refine UpToWords.bind (.mapM (fun pair => ?_) _) fun _ => .refl _
  change UpToWords (pair.1.mulIn v pair.2) (pair.1.mulIn w pair.2)
  rw [Entry.mulIn, Entry.mulIn]
  split
  · exact (Number.upToWords_mulIn h ..).bind fun _ => .refl _
  · exact .refl _

theorem upToWords_scalarMulIn (r : Row) (c : Number) :
    UpToWords (r.scalarMulIn v c) (r.scalarMulIn w c) :=
  UpToWords.bind (.mapM (fun _ => (Number.upToWords_mulIn h ..).bind fun _ => .refl _) _)
    fun _ => .refl _

theorem upToWords_derivativeIn (r : Row) : UpToWords (r.derivativeIn v) (r.derivativeIn w) :=
  UpToWords.bind (.mapM (fun _ => (Number.upToWords_mulIn h ..).bind fun _ => .refl _) _)
    fun _ => .refl _

theorem upToWords_powFromIn (acc square : Row) (n : Nat) :
    UpToWords (powFromIn v acc square n) (powFromIn w acc square n) := by
  induction n using Nat.strongRecOn generalizing acc square with
  | ind n ih =>
    rw [powFromIn, powFromIn.eq_def w]
    split
    · exact .refl _
    refine UpToWords.bind ?_ fun acc => ?_
    · split
      · exact upToWords_mulIn h ..
      · exact .refl _
    · split
      · exact .refl _
      · exact (upToWords_mulIn h ..).bind fun s =>
          ih (n / 2) (Nat.div_lt_self (by omega) (by decide)) acc s

theorem upToWords_productIn (rs : List Row) : UpToWords (productIn v rs) (productIn w rs) :=
  .foldlM (upToWords_mulIn h) rs one

theorem upToWords_takeAwayIn (c : Number) (shift : Nat) (b : Row) (buffer : Buffer) :
    UpToWords (takeAwayIn v c shift b buffer) (takeAwayIn w c shift b buffer) := by
  induction b generalizing buffer with
  | nil => exact .refl _
  | cons t b ih =>
    refine (h.index ..).bind fun i => UpToWords.bind (.refl _) fun x => ?_
    exact (Number.upToWords_mulIn h ..).bind fun m => UpToWords.bind (.refl _) ih

theorem upToWords_eliminateIn (b : Row) (lead : Entry) (precision n : Nat) (buffer : Buffer) :
    UpToWords (eliminateIn v b lead precision n buffer) (eliminateIn w b lead precision n buffer) := by
  induction n generalizing buffer with
  | zero => exact .refl _
  | succ n ih =>
    refine UpToWords.bind (.refl _) fun x => (Number.upToWords_divIn? h ..).bind fun c => ?_
    cases c with
    | none => exact .refl _
    | some c =>
      dsimp only
      split
      · exact ih buffer
      · exact (upToWords_takeAwayIn h ..).bind fun buffer => (ih buffer).bind fun _ => .refl _

theorem upToWords_quotientIn (a b : Row) (precision : Nat) :
    UpToWords (a.quotientIn v b precision) (a.quotientIn w b precision) := by
  refine UpToWords.bind (.refl _) fun lead => ?_
  split
  · exact .refl _
  refine UpToWords.bind (.refl _) fun first => ?_
  split
  · exact .refl _
  exact UpToWords.bind (.refl _) fun buffer => (upToWords_eliminateIn h ..).bind fun _ => .refl _

theorem upToWords_divRemIn (a b : Row) (precision : Nat) :
    UpToWords (a.divRemIn v b precision) (a.divRemIn w b precision) :=
  (upToWords_quotientIn h ..).bind fun q =>
    ((upToWords_mulIn h q b).demanded .product).bind fun _ => .refl _

end Row
end Strict

/-- Canonical, with no more places than a word can count. -/
structure Row.Fits (r : Row) : Prop where
  canonical : r.Canonical
  scale_le : ∀ t ∈ r, t.coefficient.scale ≤ maxScale

namespace Row
variable {ts r s m : Row} {k : Nat}

theorem scale_le_accumulate {t : Entry} {us : Row} (ht : t.coefficient.scale ≤ k)
    (hus : ∀ u ∈ us, u.coefficient.scale ≤ k) : ∀ u ∈ accumulate t us, u.coefficient.scale ≤ k := by
  have hadd {x : Number} (hx : x.scale ≤ k) : (x.add t.coefficient).scale ≤ k :=
    (Number.scale_normal_le ..).trans (Nat.max_le.mpr ⟨hx, ht⟩)
  have hfresh : (Number.zero.add t.coefficient).scale ≤ k := hadd (Nat.zero_le k)
  induction us with
  | nil => exact List.forall_mem_singleton.mpr hfresh
  | cons u us ih =>
    obtain ⟨hu, hrest⟩ := List.forall_mem_cons.mp hus
    rw [accumulate]
    split
    · exact List.forall_mem_cons.mpr ⟨hfresh, hus⟩
    split
    · exact List.forall_mem_cons.mpr ⟨hu, ih hrest⟩
    · exact List.forall_mem_cons.mpr ⟨hadd hu, hrest⟩

theorem scale_le_canonicalize (h : ∀ t ∈ ts, t.coefficient.scale ≤ k) :
    ∀ t ∈ canonicalize ts, t.coefficient.scale ≤ k := by
  have hsums : ∀ t ∈ sums ts, t.coefficient.scale ≤ k :=
    List.foldlRecOn (motive := fun us : Row => ∀ u ∈ us, u.coefficient.scale ≤ k) ts _
      (List.forall_mem_nil _) fun us hus t ht => scale_le_accumulate (h t ht) hus
  rw [canonicalize]
  split
  · exact List.forall_mem_singleton.mpr (Nat.zero_le k)
  · next t us hkept =>
    rw [← hkept]
    exact fun u hu => hsums u (List.mem_reverse.mp (List.mem_filter.mp hu).1)

theorem fits_canonicalize (h : ∀ t ∈ ts, t.exponent ≤ maxExponent ∧ t.coefficient.scale ≤ maxScale) :
    (canonicalize ts).Fits :=
  ⟨canonical_canonicalize fun t ht => (h t ht).1, scale_le_canonicalize fun t ht => (h t ht).2⟩

theorem fits_zero : zero.Fits := ⟨canonical_zero, by decide⟩

theorem fits_one : one.Fits := fits_canonicalize (by decide)

theorem Fits.neg (h : r.Fits) : r.neg.Fits := by
  obtain ⟨p, rfl⟩ := h.canonical.exists_row
  refine ⟨?_, List.forall_mem_map.mpr h.scale_le⟩
  rw [← SparsePoly.row_neg]
  exact SparsePoly.canonical_row _

theorem Fits.add (hr : r.Fits) (hs : s.Fits) : (r.add s).Fits := by
  have hscale : ∀ t ∈ mergeJoin r s, t.coefficient.scale ≤ maxScale :=
    forall_mem_mergeJoin (fun _ _ ht hu => (Number.scale_normal_le ..).trans (Nat.max_le.mpr ⟨ht, hu⟩))
      hr.scale_le hs.scale_le
  have hexponent := exponent_le_mergeJoin hr.canonical.exponent_le hs.canonical.exponent_le
  exact fits_canonicalize fun t ht => ⟨hexponent t ht, hscale t ht⟩

theorem Fits.sub (hr : r.Fits) (hs : s.Fits) : (r.sub s).Fits := hr.add hs.neg

section Limited
variable {w : Words} (hw : w ≠ .unlimited)
include hw

theorem fits_mulIn (h : r.mulIn w s = .ok m) : m.Fits := by
  obtain ⟨ts, hts, ⟨⟩⟩ := bind_eq_ok.mp h
  refine fits_canonicalize fun t ht => ?_
  obtain ⟨pair, -, hpair⟩ := exists_of_mem_mapM hts ht
  change pair.1.mulIn w pair.2 = .ok t at hpair
  rw [Entry.mulIn] at hpair
  split at hpair
  · next hfits =>
    obtain ⟨c, hc, ⟨⟩⟩ := bind_eq_ok.mp hpair
    exact ⟨hfits, Number.scale_mulIn_le hw hc⟩
  · cases hpair

theorem fits_scalarMulIn {c : Number} (hr : r.Fits) (h : r.scalarMulIn w c = .ok m) : m.Fits := by
  obtain ⟨ts, hts, ⟨⟩⟩ := bind_eq_ok.mp h
  refine fits_canonicalize fun t ht => ?_
  obtain ⟨u, hu, hut⟩ := exists_of_mem_mapM hts ht
  obtain ⟨c, hc, ⟨⟩⟩ := bind_eq_ok.mp hut
  exact ⟨hr.canonical.exponent_le u hu, Number.scale_mulIn_le hw hc⟩

theorem fits_derivativeIn (hr : r.Fits) (h : r.derivativeIn w = .ok m) : m.Fits := by
  obtain ⟨ts, hts, ⟨⟩⟩ := bind_eq_ok.mp h
  refine fits_canonicalize fun t ht => ?_
  obtain ⟨u, hu, hut⟩ := exists_of_mem_mapM hts ht
  obtain ⟨c, hc, ⟨⟩⟩ := bind_eq_ok.mp hut
  have hle := hr.canonical.exponent_le u (List.mem_filter.mp hu).1
  exact ⟨(Nat.sub_le ..).trans hle, Number.scale_mulIn_le hw hc⟩

theorem fits_powFromIn {acc square : Row} {n : Nat} (hacc : acc.Fits)
    (h : powFromIn w acc square n = .ok m) : m.Fits := by
  induction n using Nat.strongRecOn generalizing acc square with
  | ind n ih =>
    rw [powFromIn] at h
    split at h
    · cases h
      exact hacc
    obtain ⟨acc', hacc', h⟩ := bind_eq_ok.mp h
    have hfits : acc'.Fits := by
      split at hacc'
      · exact fits_mulIn hw hacc'
      · cases hacc'
        exact hacc
    split at h
    · cases h
      exact hfits
    · obtain ⟨s, -, h⟩ := bind_eq_ok.mp h
      exact ih (n / 2) (Nat.div_lt_self (by omega) (by decide)) hfits h

theorem fits_foldlM_mulIn {rs : List Row} {acc : Row} (hacc : acc.Fits)
    (h : rs.foldlM (mulIn w) acc = .ok m) : m.Fits := by
  induction rs generalizing acc with
  | nil =>
    cases h
    exact hacc
  | cons r rs ih =>
    obtain ⟨acc', hacc', h⟩ := bind_eq_ok.mp h
    exact ih (fits_mulIn hw hacc') h

theorem fits_productIn {rs : List Row} (h : productIn w rs = .ok m) : m.Fits :=
  fits_foldlM_mulIn hw fits_one h

theorem within_eliminateIn {b found : Row} {lead : Entry} {precision n : Nat} {buffer : Buffer}
    (h : eliminateIn w b lead precision n buffer = .ok found) :
    ∀ t ∈ found, t.exponent < n ∧ t.coefficient.scale ≤ maxScale := by
  induction n generalizing buffer found with
  | zero =>
    cases h
    exact List.forall_mem_nil _
  | succ n ih =>
    obtain ⟨x, -, h⟩ := bind_eq_ok.mp h
    obtain ⟨c, hc, h⟩ := bind_eq_ok.mp h
    cases c with
    | none => cases h
    | some c =>
      dsimp only at h
      split at h
      · exact fun t ht => (ih h t ht).imp_left Nat.lt_succ_of_lt
      · obtain ⟨rest, -, h⟩ := bind_eq_ok.mp h
        obtain ⟨later, hlater, ⟨⟩⟩ := bind_eq_ok.mp h
        refine List.forall_mem_cons.mpr ⟨⟨Nat.lt_succ_self n, Number.scale_divIn?_le hw hc⟩, ?_⟩
        exact fun t ht => (ih hlater t ht).imp_left Nat.lt_succ_of_lt

theorem fits_quotientIn {a b q : Row} {precision : Nat} (ha : a.Fits)
    (h : a.quotientIn w b precision = .ok q) : q.Fits := by
  obtain ⟨lead, -, h⟩ := bind_eq_ok.mp h
  split at h
  · cases h
  obtain ⟨first, hfirst, h⟩ := bind_eq_ok.mp h
  split at h
  · cases h
    exact fits_zero
  obtain ⟨buffer, -, h⟩ := bind_eq_ok.mp h
  obtain ⟨found, hfound, ⟨⟩⟩ := bind_eq_ok.mp h
  have hmem : first ∈ a := by
    cases a with
    | nil => cases hfirst
    | cons t a =>
      cases hfirst
      exact List.mem_cons_self
  have hle := ha.canonical.exponent_le first hmem
  refine fits_canonicalize fun t ht => ?_
  obtain ⟨hlt, hscale⟩ := within_eliminateIn hw hfound t ht
  exact ⟨by omega, hscale⟩

theorem fits_divRemIn {a b q s : Row} {precision : Nat} (ha : a.Fits)
    (h : a.divRemIn w b precision = .ok (q, s)) : q.Fits ∧ s.Fits := by
  obtain ⟨q', hq, h⟩ := bind_eq_ok.mp h
  obtain ⟨m, hm, ⟨⟩⟩ := bind_eq_ok.mp h
  exact ⟨fits_quotientIn hw ha hq, ha.sub (fits_mulIn hw (mapError_eq_ok.mp hm))⟩

end Limited
end Row
end DecimalPoly.Plain
