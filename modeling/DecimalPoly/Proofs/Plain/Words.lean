import DecimalPoly.Proofs.Journal
import DecimalPoly.Proofs.Plain.Buffer
import DecimalPoly.Proofs.Plain.Estimate

/-! Bare pairs with scales of 32 bits, divided by way of signed words of 64. Where a word cannot hold a
sum, the computation stops or the word wraps around, and some numbers out of range give way to the
largest one. Without limits the results are those on pairs of any size. A computation that stops at
every limit has the same results up to there as all others have. -/
namespace DecimalPoly.Plain
open Decimal

/-- What becomes of numbers that their words cannot hold. -/
inductive Words where
  | unlimited
  /-- They stop the computation, also those that would give way to the largest one. -/
  | strict
  | stops
  | wraps
deriving DecidableEq

namespace Words

/-- Where the one does not stop, the other does the same. -/
inductive Stricter : Words → Words → Prop where
  | strict (w : Words) : Stricter .strict w
  | stops : Stricter .stops .wraps

section
variable {α : Type} (w : Words)

def settle (fits : Bool) (exact wrapped : α) : Except Halt α :=
  if fits ∨ w = .unlimited then .ok exact
  else if w = .wraps then .ok wrapped
  else .error .wordOverflow

def bounded (fits : Bool) (exact largest : α) : Except Halt α :=
  if fits ∨ w = .unlimited then .ok exact
  else if w = .strict then .error .wordOverflow
  else .ok largest

def unsigned (n : Nat) : Except Halt Nat := w.settle (n ≤ maxScale) n (n % (maxScale + 1))

def signed (i : Int) : Except Halt Int :=
  w.settle (-(maxSigned + 1) ≤ i ∧ i ≤ maxSigned) i (i.bmod (2 * (maxSigned + 1)))

def precision (n : Nat) : Except Halt Nat := w.bounded (n ≤ maxSigned) n maxSigned

def power (n : Nat) : Except Halt Nat := w.bounded (n ≤ maxPower) n maxPower

def index (m n : Nat) : Except Halt Nat :=
  if w = .unlimited then addExponents m n else w.unsigned (m + n)

/-- A scale below zero is a factor, and so is one that is too large. -/
def ofSigned (m scale : Int) : Except Halt Number :=
  if scale < 0 then do return .normal (m * tenPow (← w.power scale.natAbs)) 0
  else w.bounded (scale ≤ maxScale) (.normal m scale.toNat) (.normal (m * tenPow maxPower) 0)

def round (sign : Int) (q : CutQuotient) (precision : Nat) : Except Halt Number :=
  if 0 < excessDigits q precision then do
    let dropped ← w.power (excessDigits q precision).toNat
    let scale ← w.signed (q.scale - dropped)
    w.ofSigned (sign * roundHalfEven q.digits dropped q.inexact) scale
  else w.ofSigned (sign * q.digits) q.scale

end
end Words

namespace Number
variable (w : Words)

def mulIn (x y : Number) : Except Halt Number := do
  return normal (x.mantissa * y.mantissa) (← w.unsigned (x.scale + y.scale))

def divIn? (x y : Number) (precision : Nat) : Except Halt (Option Number) :=
  if y.isZero then .ok none
  else if x.isZero then .ok (some zero)
  else do
    let precision ← w.precision (max precision 1)
    let above ← w.signed (precision + 1)
    let shift ← w.signed (above - (numDigits x.mantissa.natAbs - numDigits y.mantissa.natAbs))
    let power ← w.power shift.natAbs
    let raised ← w.signed (shift + x.scale)
    let q := x.cutAt y shift power (← w.signed (raised - y.scale))
    return some (← w.round (x.mantissa.sign * y.mantissa.sign) q precision)

end Number

namespace Words
section
variable {α : Type} (fits : Bool) (exact other : α)

theorem settle_unlimited : unlimited.settle fits exact other = .ok exact := if_pos (.inr rfl)

theorem bounded_unlimited : unlimited.bounded fits exact other = .ok exact := if_pos (.inr rfl)

end

theorem unsigned_unlimited (n : Nat) : unlimited.unsigned n = .ok n := settle_unlimited ..

theorem signed_unlimited (i : Int) : unlimited.signed i = .ok i := settle_unlimited ..

theorem precision_unlimited (n : Nat) : unlimited.precision n = .ok n := bounded_unlimited ..

theorem power_unlimited (n : Nat) : unlimited.power n = .ok n := bounded_unlimited ..

theorem ofSigned_unlimited (m scale : Int) : unlimited.ofSigned m scale =
    .ok (.normal (m * tenPow (-scale).toNat) scale.toNat) := by
  rw [ofSigned]
  split
  · next hneg =>
    have habs : scale.natAbs = (-scale).toNat := by omega
    have hnone : scale.toNat = 0 := by omega
    rw [power_unlimited, habs, hnone]
    rfl
  · next hnonneg =>
    have hzero : (-scale).toNat = 0 := by omega
    have hone : (tenPow 0 : Int) = 1 := rfl
    rw [bounded_unlimited, hzero, hone, mul_one]

theorem roundHalfEven_zero (n : Nat) (sticky : Bool) : roundHalfEven n 0 sticky = n := by
  have hkept : n / tenPow 0 = n := Nat.div_one n
  have hlost : n % tenPow 0 = 0 := Nat.mod_one n
  rw [roundHalfEven, hkept, hlost]
  exact if_pos (by decide)

theorem round_unlimited (sign : Int) (q : CutQuotient) (precision : Nat) :
    let dropped := numDigits q.digits - precision
    let scale := q.scale - dropped
    unlimited.round sign q precision = .ok (.normal
      (sign * roundHalfEven q.digits dropped q.inexact * tenPow (-scale).toNat) scale.toNat) := by
  intro dropped scale
  rw [round]
  split
  · next hpos =>
    have hdropped : (excessDigits q precision).toNat = dropped := by
      rw [excessDigits]
      omega
    rw [hdropped, power_unlimited, ok_bind, signed_unlimited, ok_bind, ofSigned_unlimited]
  · next hnone =>
    have hdropped : dropped = 0 := by
      rw [excessDigits] at hnone
      omega
    have hscale : scale = q.scale := by
      simp only [scale, hdropped]
      exact Int.sub_zero _
    rw [hdropped, hscale, roundHalfEven_zero, ofSigned_unlimited]

end Words

namespace Number

theorem mulIn_unlimited (x y : Number) : x.mulIn .unlimited y = .ok (x.mul y) := by
  rw [mulIn, Words.unsigned_unlimited]
  rfl

theorem divIn?_unlimited (x y : Number) (precision : Nat) :
    x.divIn? .unlimited y precision = .ok (x.div? y precision) := by
  rw [divIn?, div?]
  split
  · rfl
  split
  · rfl
  simp only [Words.precision_unlimited, Words.signed_unlimited, Words.power_unlimited, ok_bind,
    cutAt_eq, Words.round_unlimited, max_comm precision]
  rfl

end Number
/-- `x` is `y`, unless it stops at a word. -/
def UpToWords {α : Type} (x y : Except Halt α) : Prop := x = .error .wordOverflow ∨ x = y

namespace UpToWords
variable {α β : Type}

theorem refl (x : Except Halt α) : UpToWords x x := .inr rfl

theorem bind {x y : Except Halt α} {f g : α → Except Halt β} (h : UpToWords x y)
    (hfg : ∀ a, UpToWords (f a) (g a)) : UpToWords (x >>= f) (y >>= g) := by
  cases h with
  | inl hx =>
    left
    rw [hx]
    rfl
  | inr hx =>
    rw [hx]
    cases y with
    | error e => exact refl _
    | ok a => exact hfg a

theorem mapM {f g : α → Except Halt β} (h : ∀ a, UpToWords (f a) (g a)) (as : List α) :
    UpToWords (as.mapM f) (as.mapM g) := by
  induction as with
  | nil => exact refl _
  | cons a as ih =>
    rw [List.mapM_cons, List.mapM_cons]
    exact (h a).bind fun b => ih.bind fun bs => refl _

theorem foldlM {f g : β → α → Except Halt β} (h : ∀ b a, UpToWords (f b a) (g b a)) (as : List α)
    (b : β) : UpToWords (as.foldlM f b) (as.foldlM g b) := by
  induction as generalizing b with
  | nil => exact refl _
  | cons a as ih =>
    rw [List.foldlM_cons, List.foldlM_cons]
    exact (h b a).bind ih

end UpToWords

section Strict
variable {v w : Words}

namespace Words.Stricter

theorem settle {α : Type} (h : v.Stricter w) (fits : Bool) (exact wrapped : α) :
    UpToWords (v.settle fits exact wrapped) (w.settle fits exact wrapped) := by
  cases fits with
  | true => exact .inr ((if_pos (.inl rfl)).trans (if_pos (.inl rfl)).symm)
  | false => cases h <;> exact .inl rfl

theorem bounded {α : Type} (h : v.Stricter w) (fits : Bool) (exact largest : α) :
    UpToWords (v.bounded fits exact largest) (w.bounded fits exact largest) := by
  cases fits with
  | true => exact .inr ((if_pos (.inl rfl)).trans (if_pos (.inl rfl)).symm)
  | false =>
    cases h with
    | strict w => exact .inl rfl
    | stops => exact .refl _

theorem index (h : v.Stricter w) (m n : Nat) : UpToWords (v.index m n) (w.index m n) := by
  have hv : v.index m n = v.unsigned (m + n) := by cases h <;> rfl
  rw [hv]
  by_cases hw : w = .unlimited
  · cases h with
    | stops => cases hw
    | strict w =>
      rw [Words.index, if_pos hw, addExponents]
      split
      · next hfits => exact .inr (if_pos (.inl (decide_eq_true hfits)))
      · next hlong =>
        exact .inl (if_neg (not_or.mpr ⟨fun hfits => hlong (of_decide_eq_true hfits), by decide⟩))
  · rw [Words.index, if_neg hw]
    exact h.settle ..

theorem ofSigned (h : v.Stricter w) (m scale : Int) :
    UpToWords (v.ofSigned m scale) (w.ofSigned m scale) := by
  rw [Words.ofSigned, Words.ofSigned]
  split
  · exact (h.bounded ..).bind fun _ => .refl _
  · exact h.bounded ..

theorem round (h : v.Stricter w) (sign : Int) (q : CutQuotient) (precision : Nat) :
    UpToWords (v.round sign q precision) (w.round sign q precision) := by
  rw [Words.round, Words.round]
  split
  · refine (h.bounded ..).bind fun dropped => ?_
    exact (h.settle ..).bind fun scale => h.ofSigned ..
  · exact h.ofSigned ..

end Words.Stricter

namespace Number

theorem upToWords_mulIn (h : v.Stricter w) (x y : Number) : UpToWords (x.mulIn v y) (x.mulIn w y) :=
  (h.settle ..).bind fun _ => .refl _

theorem upToWords_divIn? (h : v.Stricter w) (x y : Number) (precision : Nat) :
    UpToWords (x.divIn? v y precision) (x.divIn? w y precision) := by
  rw [divIn?, divIn?]
  split
  · exact .refl _
  split
  · exact .refl _
  refine (h.bounded ..).bind fun precision => ?_
  refine (h.settle ..).bind fun above => ?_
  refine (h.settle ..).bind fun shift => ?_
  refine (h.bounded ..).bind fun power => ?_
  refine (h.settle ..).bind fun raised => ?_
  refine (h.settle ..).bind fun scale => ?_
  exact (h.round ..).bind fun _ => .refl _

end Number
end Strict

section Bounds
variable {w : Words}

theorem Words.unsigned_le (hw : w ≠ .unlimited) {n k : Nat} (h : w.unsigned n = .ok k) :
    k ≤ maxScale := by
  rw [unsigned, settle] at h
  split at h
  · next hfits =>
    cases h
    simpa [hw] using hfits
  split at h
  · cases h
    exact Nat.le_of_lt_succ (Nat.mod_lt _ (by decide))
  · cases h

theorem Number.scale_normal_le (m : Int) (s : Nat) : (normal m s).scale ≤ s := by
  rw [normal_eq]
  exact Decimal.scale_ofScaled_le ..

theorem Words.scale_ofSigned_le (hw : w ≠ .unlimited) {m scale : Int} {x : Number}
    (h : w.ofSigned m scale = .ok x) : x.scale ≤ maxScale := by
  rw [ofSigned] at h
  split at h
  · obtain ⟨k, -, ⟨⟩⟩ := bind_eq_ok.mp h
    exact (Number.scale_normal_le _ 0).trans (Nat.zero_le _)
  · rw [bounded] at h
    split at h
    · next hfits =>
      cases h
      have hscale : scale ≤ maxScale := by simpa [hw] using hfits
      exact (Number.scale_normal_le ..).trans (by omega)
    split at h
    · cases h
    · cases h
      exact (Number.scale_normal_le _ 0).trans (Nat.zero_le _)

theorem Words.scale_round_le (hw : w ≠ .unlimited) {sign : Int} {q : CutQuotient} {precision : Nat}
    {x : Number} (h : w.round sign q precision = .ok x) : x.scale ≤ maxScale := by
  rw [round] at h
  split at h
  · obtain ⟨dropped, -, h⟩ := bind_eq_ok.mp h
    obtain ⟨scale, -, h⟩ := bind_eq_ok.mp h
    exact scale_ofSigned_le hw h
  · exact scale_ofSigned_le hw h

namespace Number
variable {x y z : Number}

theorem scale_mulIn_le (hw : w ≠ .unlimited) (h : x.mulIn w y = .ok z) : z.scale ≤ maxScale := by
  obtain ⟨s, hs, ⟨⟩⟩ := bind_eq_ok.mp h
  exact (scale_normal_le ..).trans (Words.unsigned_le hw hs)

theorem scale_divIn?_le (hw : w ≠ .unlimited) {precision : Nat}
    (h : x.divIn? w y precision = .ok (some z)) : z.scale ≤ maxScale := by
  rw [divIn?] at h
  split at h
  · cases h
  split at h
  · cases h
    exact Nat.zero_le _
  obtain ⟨precision, -, h⟩ := bind_eq_ok.mp h
  obtain ⟨above, -, h⟩ := bind_eq_ok.mp h
  obtain ⟨shift, -, h⟩ := bind_eq_ok.mp h
  obtain ⟨power, -, h⟩ := bind_eq_ok.mp h
  obtain ⟨raised, -, h⟩ := bind_eq_ok.mp h
  obtain ⟨scale, -, h⟩ := bind_eq_ok.mp h
  obtain ⟨z, hz, ⟨⟩⟩ := bind_eq_ok.mp h
  exact Words.scale_round_le hw hz

end Number
end Bounds

end DecimalPoly.Plain
