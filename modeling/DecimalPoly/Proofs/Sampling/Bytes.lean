import DecimalPoly.Proofs.SparsePoly.Bounds
import DecimalPoly.Sampling.Bytes

/-! Polynomials out of bytes. The generator of rows calls readers that it knows nothing about. If they
take their bytes from the front and count missing ones as zero, it makes a polynomial of every list
of bytes, within limits. Every list of at most eight samples comes out of the bytes that write them
down, with no other terms and no byte left. -/
namespace DecimalPoly
namespace Sampling

/-- Takes `k` bytes from the front, or all if there are fewer, and makes `f` of what was there. -/
def Takes {m : Type → Type} [Monad m] {α : Type} (x : StateT (List UInt8) m α) (k : Nat)
    (f : List UInt8 → α) : Prop :=
  ∀ bs, x.run bs = pure (f bs, bs.drop k)

namespace Takes
variable {m : Type → Type} [Monad m] {α β : Type}

theorem pure_zero (a : α) : Takes (pure a : StateT (List UInt8) m α) 0 fun _ => a := fun _ => rfl

section
variable [LawfulMonad m] {x : StateT (List UInt8) m α} {f : List UInt8 → α} {j : Nat}
variable {g : α → StateT (List UInt8) m β} {h : α → List UInt8 → β}

theorem run_bind {k : α → Nat} (hx : Takes x j f) (hg : ∀ a, Takes (g a) (k a) (h a))
    (bs : List UInt8) :
    (x >>= g).run bs = pure (h (f bs) (bs.drop j), bs.drop (j + k (f bs))) := by
  rw [StateT.run_bind, hx bs, pure_bind, hg, List.drop_drop]

theorem bind {k : Nat} (hx : Takes x j f) (hg : ∀ a, Takes (g a) k (h a)) :
    Takes (x >>= g) (j + k) fun bs => h (f bs) (bs.drop j) := hx.run_bind hg

theorem map (hx : Takes x j f) (g : α → β) :
    Takes (x >>= fun a => pure (g a)) j fun bs => g (f bs) :=
  hx.bind fun a => pure_zero (g a)

end
end Takes

structure Sample where
  mantissa : Int32
  scale : Fin 5
  exponent : Fin 17
deriving DecidableEq

namespace Sample

def term (s : Sample) : Term where
  coefficient := .ofScaled s.mantissa.toInt s.scale
  exponent := s.exponent
  exponent_le := Nat.le_trans (Nat.le_of_lt_succ s.exponent.2) (by decide)

def entry (s : Sample) : Plain.Entry := ⟨.normal s.mantissa.toInt s.scale, s.exponent⟩

theorem ofTerm_term (s : Sample) : Plain.Entry.ofTerm s.term = s.entry := by
  rw [entry, Plain.Number.normal_eq]
  rfl

theorem within_term (s : Sample) : s.term.Within 16 4 (2 ^ 31) := by
  have hlow := s.mantissa.le_toInt
  have hhigh := s.mantissa.toInt_lt
  have hm : |s.mantissa.toInt| ≤ (2 ^ 31 : Nat) := abs_le.mpr ⟨by omega, by omega⟩
  have h := Term.within_of_coefficient_eq (t := s.term) rfl (Nat.le_of_lt_succ s.exponent.2)
    (Nat.le_of_lt_succ s.scale.2) hm
  exact_mod_cast h

def ofBytes (bs : List UInt8) : Sample where
  mantissa := .ofInt (littleEndian (bs.take 4))
  scale := Fin.ofNat 5 ((bs.drop 4).headD 0).toNat
  exponent := Fin.ofNat 17 ((bs.drop 5).headD 0).toNat

end Sample

def rowOf (ss : List Sample) : Plain.Row := Plain.Row.canonicalize (ss.map Sample.entry)

theorem rowOf_eq (ss : List Sample) : rowOf ss = (SparsePoly.ofTerms (ss.map Sample.term)).row :=
  Plain.Row.canonicalize_map Sample.ofTerm_term ss

def samples : Nat → List UInt8 → List Sample
  | 0, _ => []
  | n + 1, bs => .ofBytes bs :: samples n (bs.drop 6)

theorem Takes.loop {m : Type → Type} [Monad m] [LawfulMonad m] {α : Type} {f : Sample → α}
    {x : StateT (List UInt8) m α} {xs : Nat → StateT (List UInt8) m (List α)}
    (hx : Takes x 6 fun bs => f (.ofBytes bs)) (hzero : xs 0 = pure [])
    (hsucc : ∀ n, xs (n + 1) = do return (← x) :: (← xs n)) (n : Nat) :
    Takes (xs n) (6 * n) fun bs => (samples n bs).map f := by
  induction n with
  | zero => exact hzero ▸ .pure_zero []
  | succ n ih =>
    rw [hsucc, Nat.mul_succ, Nat.add_comm _ 6]
    exact hx.bind fun a => ih.map (a :: ·)

theorem length_samples (n : Nat) (bs : List UInt8) : (samples n bs).length = n := by
  induction n generalizing bs with
  | zero => rfl
  | succ n ih => rw [samples, List.length_cons, ih]

def termCount : List UInt8 → Nat
  | [] => 0
  | b :: _ => b.toNat % 9

theorem headD_mod (bs : List UInt8) : (bs.headD 0).toNat % 9 = termCount bs := by
  cases bs <;> rfl

def samplesOf (bs : List UInt8) : List Sample := samples (termCount bs) (bs.drop 1)

section Decoding

theorem takes_readInt32 :
    Takes readInt32 4 fun bs => (littleEndian (bs.take 4) : Int).bmod 4294967296 := fun _ => rfl

theorem takes_readUpTo (n : Nat) :
    Takes (readUpTo n) 1 fun bs => Fin.ofNat (n + 1) (bs.headD 0).toNat := fun _ => rfl

theorem takes_readTerm : Takes readTerm 6 fun bs => (Sample.ofBytes bs).term := by
  intro bs
  have hmantissa : (Sample.ofBytes bs).mantissa.toInt =
      (littleEndian (bs.take 4) : Int).bmod 4294967296 := Int32.toInt_ofInt
  have hdecimal : Takes readDecimal 5 _ :=
    takes_readInt32.bind fun m => (takes_readUpTo 4).map fun s => Decimal.ofScaled m s
  have hterm : Takes readTerm 6 _ :=
    hdecimal.bind fun c => (takes_readUpTo 16).map fun e => (⟨c, e, _⟩ : Term)
  refine (hterm bs).trans ?_
  simp only [Sample.term, hmantissa]
  rfl

theorem takes_readTerms (n : Nat) :
    Takes (readTerms n) (6 * n) fun bs => (samples n bs).map Sample.term :=
  .loop takes_readTerm rfl (fun _ => rfl) n

theorem readPolynomial_run (bs : List UInt8) : readPolynomial.run bs =
    (SparsePoly.ofTerms ((samplesOf bs).map Sample.term), bs.drop (1 + 6 * termCount bs)) := by
  have h := (takes_readUpTo 8).run_bind (fun n => (takes_readTerms n).map SparsePoly.ofTerms) bs
  rw [samplesOf, ← headD_mod]
  exact h

end Decoding

/-- The readers that the generator of rows calls. Each can fail. -/
structure Readers (ε : Type) where
  int32 : StateT (List UInt8) (Except ε) Int32
  /-- A number from 0 to `n`. -/
  upTo (n : Nat) : StateT (List UInt8) (Except ε) Nat

/-- An integer is taken from four bytes, the lowest first, and a number up to a limit of one byte from
one byte. -/
structure Readers.Lawful {ε : Type} (r : Readers ε) : Prop where
  int32 : Takes r.int32 4 fun bs => .ofInt (littleEndian (bs.take 4))
  upTo : ∀ n, 0 < n → n < 256 → Takes (r.upTo n) 1 fun bs => (bs.headD 0).toNat % (n + 1)

namespace Readers
open Plain
variable {ε : Type} (r : Readers ε)

def number : StateT (List UInt8) (Except ε) Number := do
  let mantissa ← r.int32
  let scale ← r.upTo 4
  return .normal mantissa.toInt scale

def entry : StateT (List UInt8) (Except ε) Entry := do
  let coefficient ← r.number
  let exponent ← r.upTo 16
  return ⟨coefficient, exponent⟩

def entries : Nat → StateT (List UInt8) (Except ε) Row
  | 0 => return []
  | n + 1 => do
    let t ← r.entry
    let ts ← entries n
    return t :: ts

def row : StateT (List UInt8) (Except ε) Row := do
  let count ← r.upTo 8
  return Row.canonicalize (← r.entries count)

def plain : Readers ε where
  int32 := fun bs => let (x, rest) := readInt32.run bs; .ok (.ofInt x, rest)
  upTo n := fun bs => let (k, rest) := (readUpTo n).run bs; .ok (k, rest)

theorem lawful_plain : (plain : Readers ε).Lawful where
  int32 := by
    intro bs
    have hwrap : Int32.ofInt ((littleEndian (bs.take 4) : Int).bmod 4294967296) =
        .ofInt (littleEndian (bs.take 4)) := by
      rw [← Int32.toInt_inj, Int32.toInt_ofInt, Int32.toInt_ofInt]
      exact Int.bmod_bmod
    exact congrArg (fun x => Except.ok (x, bs.drop 4)) hwrap
  upTo _ _ _ _ := rfl

variable {r}

theorem Lawful.takes_entry (h : r.Lawful) : Takes r.entry 6 fun bs => (Sample.ofBytes bs).entry :=
  have hnumber : Takes r.number 5 _ :=
    h.int32.bind fun m => (h.upTo 4 (by decide) (by decide)).map (Number.normal m.toInt)
  hnumber.bind fun c => (h.upTo 16 (by decide) (by decide)).map (Entry.mk c)

theorem Lawful.takes_entries (h : r.Lawful) (n : Nat) :
    Takes (r.entries n) (6 * n) fun bs => (samples n bs).map Sample.entry :=
  .loop h.takes_entry rfl (fun _ => rfl) n

theorem Lawful.row_run (h : r.Lawful) (bs : List UInt8) : r.row.run bs =
    .ok (rowOf (samplesOf bs), bs.drop (1 + 6 * termCount bs)) := by
  have hrow := (h.upTo 8 (by decide) (by decide)).run_bind
    (fun n => (h.takes_entries n).map Row.canonicalize) bs
  rw [samplesOf, ← headD_mod]
  exact hrow

end Readers

section Encoding

def lowBytes : Nat → Nat → List UInt8
  | 0, _ => []
  | k + 1, n => UInt8.ofNat n :: lowBytes k (n / 256)

theorem littleEndian_lowBytes (k n : Nat) : littleEndian (lowBytes k n) = n % 256 ^ k := by
  induction k generalizing n with
  | zero => rw [pow_zero, Nat.mod_one, lowBytes, littleEndian]
  | succ k ih => rw [Nat.pow_succ', Nat.mod_mul, lowBytes, littleEndian, ih, UInt8.toNat_ofNat']

namespace Sample

def bytes (s : Sample) : List UInt8 :=
  lowBytes 4 s.mantissa.toBitVec.toNat ++ [UInt8.ofNat s.scale, UInt8.ofNat s.exponent]

theorem length_bytes (s : Sample) : s.bytes.length = 6 := rfl

theorem ofInt_littleEndian (x : Int32) :
    Int32.ofInt (littleEndian (lowBytes 4 x.toBitVec.toNat)) = x := by
  have hlt : x.toBitVec.toNat < 256 ^ 4 := x.toBitVec.isLt
  rw [littleEndian_lowBytes, Nat.mod_eq_of_lt hlt, ← Int32.toInt_inj, Int32.toInt_ofInt]
  exact (BitVec.toInt_eq_toNat_bmod _).symm

theorem ofNat_toNat {n : Nat} (hn : n < 256) (i : Fin (n + 1)) :
    Fin.ofNat (n + 1) (UInt8.ofNat i).toNat = i := by
  have hbyte : (i : Nat) % 2 ^ 8 = i := Nat.mod_eq_of_lt (by omega)
  apply Fin.ext
  rw [Fin.val_ofNat, UInt8.toNat_ofNat', hbyte, Nat.mod_eq_of_lt i.2]

theorem ofBytes_append (s : Sample) (bs : List UInt8) : ofBytes (s.bytes ++ bs) = s := by
  have hbytes : ofBytes (s.bytes ++ bs) =
      ⟨.ofInt (littleEndian (lowBytes 4 s.mantissa.toBitVec.toNat)),
        Fin.ofNat 5 (UInt8.ofNat s.scale).toNat, Fin.ofNat 17 (UInt8.ofNat s.exponent).toNat⟩ := rfl
  rw [hbytes, ofInt_littleEndian, ofNat_toNat (by decide), ofNat_toNat (by decide)]

end Sample

theorem length_flatMap_bytes (ss : List Sample) :
    (ss.flatMap Sample.bytes).length = 6 * ss.length := by
  induction ss with
  | nil => rfl
  | cons s ss ih =>
    rw [List.flatMap_cons, List.length_append, ih, s.length_bytes, List.length_cons]
    omega

theorem samples_flatMap (ss : List Sample) :
    samples ss.length (ss.flatMap Sample.bytes) = ss := by
  induction ss with
  | nil => rfl
  | cons s ss ih =>
    rw [List.flatMap_cons, List.length_cons, samples, s.ofBytes_append,
      List.drop_left' s.length_bytes, ih]

def encode (ss : List Sample) : List UInt8 := UInt8.ofNat ss.length :: ss.flatMap Sample.bytes

theorem length_encode (ss : List Sample) : (encode ss).length = 1 + 6 * ss.length := by
  rw [encode, List.length_cons, length_flatMap_bytes, Nat.add_comm]

variable {ss : List Sample}

theorem termCount_encode (h : ss.length ≤ 8) : termCount (encode ss) = ss.length := by
  rw [encode, termCount, UInt8.toNat_ofNat']
  omega

theorem samplesOf_encode (h : ss.length ≤ 8) : samplesOf (encode ss) = ss := by
  rw [samplesOf, termCount_encode h]
  exact samples_flatMap ss

theorem drop_encode (h : ss.length ≤ 8) : (encode ss).drop (1 + 6 * termCount (encode ss)) = [] := by
  rw [termCount_encode h, ← length_encode, List.drop_length]

end Encoding

/-- With readers that keep to their bytes the generator never fails. It takes a byte and then six for
each term, as far as there are any, and what it makes is canonical, in at most as many terms, and none
beyond the limits of its samples. At most eight samples are what some list of bytes comes out as, to
its last byte. On all bytes it makes the rows of the polynomials that are read from them. -/
theorem row_sound_complete {ε : Type} {r : Readers ε} (h : r.Lawful) :
    (∀ bs : List UInt8, ∃ p : SparsePoly,
      r.row.run bs = .ok (p.row, bs.drop (1 + 6 * termCount bs)) ∧
      readPolynomial.run bs = (p, bs.drop (1 + 6 * termCount bs)) ∧
      (bs.drop (1 + 6 * termCount bs)).length = bs.length - (1 + 6 * termCount bs) ∧
      p.row.Canonical ∧ p.row.length ≤ max (termCount bs) 1 ∧
      ∀ t ∈ p.row, t.exponent ≤ 16 ∧ t.coefficient.scale ≤ 4 ∧
        |t.coefficient.toRat| ≤ termCount bs * 2 ^ 31) ∧
    ∀ ss : List Sample, ss.length ≤ 8 → ∃ bs : List UInt8, bs.length = 1 + 6 * ss.length ∧
      r.row.run bs = .ok (Plain.Row.canonicalize (ss.map Sample.entry), []) ∧
      readPolynomial.run bs = (SparsePoly.ofTerms (ss.map Sample.term), []) := by
  refine ⟨fun bs => ?_, fun ss hss => ?_⟩
  · have hlength : ((samplesOf bs).map Sample.term).length = termCount bs := by
      rw [List.length_map, samplesOf, length_samples]
    have hcount := SparsePoly.length_terms_ofTerms_le ((samplesOf bs).map Sample.term)
    have hsamples : ∀ t ∈ (samplesOf bs).map Sample.term, t.Within 16 4 (2 ^ 31) :=
      List.forall_mem_map.mpr fun s _ => s.within_term
    have hwithin := SparsePoly.within_ofTerms hsamples
    rw [hlength] at hcount hwithin
    refine ⟨_, ?_, readPolynomial_run bs, List.length_drop, SparsePoly.canonical_row _, ?_, ?_⟩
    · rw [h.row_run, rowOf_eq]
    · rw [SparsePoly.row, Plain.Row.ofTerms, List.length_map]
      exact hcount
    · refine List.forall_mem_map.mpr fun t ht => ?_
      exact ⟨(hwithin t ht).exponent_le, (hwithin t ht).scale_le, (hwithin t ht).abs_le⟩
  · refine ⟨encode ss, length_encode ss, ?_, ?_⟩
    · rw [h.row_run, samplesOf_encode hss, drop_encode hss, rowOf]
    · rw [readPolynomial_run, samplesOf_encode hss, drop_encode hss]

/-- The second of two samples ends after one byte. Both have the exponent 0. -/
theorem row_sound_complete_short :
    let r : Readers Empty := .plain
    let bs : List UInt8 := [11, 0, 0, 0, 128, 3, 17, 5]
    r.Lawful ∧ termCount bs = 2 ∧
      (∃ p : SparsePoly, r.row.run bs = .ok (p.row, []) ∧ p.row = [⟨⟨-2147478648, 3⟩, 0⟩] ∧
        ∀ t ∈ p.row, |t.coefficient.toRat| ≤ 2 * 2 ^ 31) ∧
      ∃ bs : List UInt8, bs.length = 13 ∧
        r.row.run bs = .ok ([⟨⟨-5, 1⟩, 16⟩, ⟨⟨7, 0⟩, 2⟩], []) := by
  intro r bs
  have hr : r.Lawful := Readers.lawful_plain
  have hmade : r.row.run bs = .ok ([⟨⟨-2147478648, 3⟩, 0⟩], []) := by decide +kernel
  have hcollected : Plain.Row.canonicalize ([⟨7, 0, 2⟩, ⟨-50, 2, 16⟩].map Sample.entry) =
      [⟨⟨-5, 1⟩, 16⟩, ⟨⟨7, 0⟩, 2⟩] := by decide +kernel
  obtain ⟨hsound, hcomplete⟩ := row_sound_complete hr
  obtain ⟨p, hp, -, -, -, -, hwithin⟩ := hsound bs
  obtain ⟨bs', hlength, hbs', -⟩ := hcomplete [⟨7, 0, 2⟩, ⟨-50, 2, 16⟩] (by decide)
  have hrow : p.row = [⟨⟨-2147478648, 3⟩, 0⟩] := by
    rw [hmade] at hp
    exact (congrArg Prod.fst (Except.ok.inj hp)).symm
  rw [hcollected] at hbs'
  exact ⟨hr, rfl, ⟨p, hp, hrow, fun t ht => (hwithin t ht).2.2⟩, bs', hlength, hbs'⟩

end Sampling
end DecimalPoly
