import DecimalPoly.Intake
import DecimalPoly.Proofs.Plain.Row
import Mathlib.Logic.Function.Basic

/-! The dense buffer of a division: one number for each exponent up to that of the dividend. An
access outside of it stops the computation, and so does a sum of exponents past the limit. Where all
accesses are in range, the buffer holds what the updates of its cells give. -/
namespace DecimalPoly.Plain

/-- How a computation on rows stops short of a result. The first two are reported to the caller, the
others break it off. -/
inductive Halt where
  | failure (e : Failure)
  | unread
  | violation (v : Violation)
  | outOfBounds (index size : Nat)
  | exponentOverflow (left right : Nat)
  | wordOverflow
deriving DecidableEq

def addExponents (m n : Nat) : Except Halt Nat :=
  if m + n ≤ maxExponent then .ok (m + n) else .error (.exponentOverflow m n)

abbrev Buffer := Array Number

namespace Buffer

def read (buffer : Buffer) (i : Nat) : Except Halt Number :=
  if h : i < buffer.size then .ok buffer[i] else .error (.outOfBounds i buffer.size)

def update (buffer : Buffer) (i : Nat) (f : Number → Number) : Except Halt Buffer :=
  if h : i < buffer.size then .ok (buffer.set i (f buffer[i]))
  else .error (.outOfBounds i buffer.size)

def updateAll (f : Entry → Number → Number) (shift : Nat) : Row → Buffer → Except Halt Buffer
  | [], buffer => .ok buffer
  | t :: r, buffer => do
    let i ← addExponents t.exponent shift
    updateAll f shift r (← buffer.update i (f t))

/-- The cells up to `top` are those of `g`. -/
structure Holds (buffer : Buffer) (top : Nat) (g : Nat → Decimal) : Prop where
  size : buffer.size = top + 1
  cell : ∀ i (h : i < buffer.size), buffer[i] = .ofDecimal (g i)

variable {buffer : Buffer} {top : Nat} {g : Nat → Decimal}

theorem holds_replicate (top : Nat) : Holds (Array.replicate (top + 1) .zero) top 0 where
  size := Array.size_replicate
  cell _ h := Array.getElem_replicate h

theorem Holds.read (hb : Holds buffer top g) {i : Nat} (hi : i ≤ top) :
    buffer.read i = .ok (.ofDecimal (g i)) := by
  have hlt : i < buffer.size := by
    rw [hb.size]
    omega
  rw [Buffer.read, dif_pos hlt, hb.cell]

theorem Holds.update (hb : Holds buffer top g) {i : Nat} (hi : i ≤ top) {f : Number → Number}
    {x : Decimal} (hx : f (.ofDecimal (g i)) = .ofDecimal x) :
    ∃ buffer', buffer.update i f = .ok buffer' ∧ Holds buffer' top (Function.update g i x) := by
  have hlt : i < buffer.size := by
    rw [hb.size]
    omega
  refine ⟨_, dif_pos hlt, (Array.size_set hlt).trans hb.size, fun j hj => ?_⟩
  rw [Array.getElem_set, Function.update_apply]
  by_cases h : i = j
  · rw [if_pos h, if_pos h.symm, hb.cell, hx]
  · rw [if_neg h, if_neg (Ne.symm h), hb.cell]

theorem Holds.updateAll (hb : Holds buffer top g) (htop : top ≤ maxExponent)
    {f : Entry → Number → Number} {k : Term → Decimal → Decimal}
    (hf : ∀ t x, f (.ofTerm t) (.ofDecimal x) = .ofDecimal (k t x)) {shift : Nat} {ts : List Term}
    (hd : Descending ts) (hfit : ∀ t ∈ ts, t.exponent + shift ≤ top) :
    ∃ buffer' g', buffer.updateAll f shift (Row.ofTerms ts) = .ok buffer' ∧ Holds buffer' top g' ∧
      (∀ t ∈ ts, g' (t.exponent + shift) = k t (g (t.exponent + shift))) ∧
      ∀ i, (∀ t ∈ ts, t.exponent + shift ≠ i) → g' i = g i := by
  induction ts generalizing buffer g with
  | nil => exact ⟨buffer, g, rfl, hb, by simp, fun _ _ => rfl⟩
  | cons t ts ih =>
    obtain ⟨ht, hts⟩ := List.pairwise_cons.mp hd
    obtain ⟨hle, hfits⟩ := List.forall_mem_cons.mp hfit
    obtain ⟨next, hupdate, hnext⟩ := hb.update hle (hf t _)
    obtain ⟨buffer', g', hall, hholds, hin, hout⟩ := ih hnext hts hfits
    -- exponents differ, so the other entries leave the cell of this one alone
    have hother (u : Term) (hu : u ∈ ts) : u.exponent + shift ≠ t.exponent + shift := by
      have := ht u hu
      omega
    refine ⟨buffer', g', ?_, hholds, List.forall_mem_cons.mpr ⟨?_, fun u hu => ?_⟩, fun i hi => ?_⟩
    · have hadd : addExponents t.exponent shift = .ok (t.exponent + shift) :=
        if_pos (hle.trans htop)
      change (addExponents t.exponent shift >>= fun i =>
        buffer.update i (f (.ofTerm t)) >>= fun b => b.updateAll f shift (Row.ofTerms ts)) = _
      rw [hadd]
      change (buffer.update (t.exponent + shift) (f (.ofTerm t)) >>= fun b =>
        b.updateAll f shift (Row.ofTerms ts)) = _
      rw [hupdate]
      exact hall
    · rw [hout _ hother, Function.update_self]
    · rw [hin u hu, Function.update_of_ne (hother u hu)]
    · obtain ⟨hit, hits⟩ := List.forall_mem_cons.mp hi
      rw [hout i hits, Function.update_of_ne (Ne.symm hit)]

end Buffer
end DecimalPoly.Plain
