import DecimalPoly.Proofs.Journal

/-! Computations that write lines. What is written stays when they stop short. One of them writes out a
logged computation if it ends as that one does and its lines are the records, with their levels and in
their words. -/
namespace DecimalPoly.Plain

abbrev Noted (ε : Type) := ExceptT ε (StateM (List (Level × String)))

namespace Noted
variable {ε α β : Type}

def of (x : Except ε α) : Noted ε α := ExceptT.mk (pure x)

def note (level : Level) (message : String) : Noted ε PUnit := modify (· ++ [(level, message)])

def outcome (x : Noted ε α) : Except ε α := (x.run.run []).1

/-- Behind whatever was written before, `x` writes these lines and ends in this way. -/
def Writes (x : Noted ε α) (outcome : Except ε α) (lines : List (Level × String)) : Prop :=
  ∀ earlier, x.run.run earlier = (outcome, earlier ++ lines)

theorem writes_of (x : Except ε α) : Writes (of x) x [] := by
  intro earlier
  rw [List.append_nil]
  rfl

theorem writes_pure (a : α) : Writes (pure a : Noted ε α) (.ok a) [] := writes_of (.ok a)

theorem writes_note (level : Level) (message : String) :
    Writes (note level message : Noted ε PUnit) (.ok ⟨⟩) [(level, message)] := fun _ => rfl

section
variable {x : Noted ε α} {f : α → Noted ε β} {a : α} {outcome : Except ε β}
variable {us vs : List (Level × String)}

theorem Writes.bind (hx : Writes x (.ok a) us) (hf : Writes (f a) outcome vs) :
    Writes (x >>= f) outcome (us ++ vs) := by
  intro earlier
  rw [ExceptT.run_bind, StateT.run_bind, hx earlier, ← List.append_assoc]
  exact hf _

theorem Writes.bind_error {e : ε} (hx : Writes x (.error e) us) :
    Writes (x >>= f) (.error e) us := by
  intro earlier
  rw [ExceptT.run_bind, StateT.run_bind, hx earlier]
  rfl

theorem Writes.map {o : Except ε α} (hx : Writes x o us) (f : α → β) :
    Writes (f <$> x) (o.map f) us := by
  intro earlier
  rw [ExceptT.run_map, StateT.run_map, hx earlier]
  rfl

theorem Writes.outcome_of {o : Except ε α} (hx : Writes x o us) : x.outcome = o :=
  congrArg Prod.fst (hx [])

theorem Writes.outcome_eq {o o' : Except ε α} (hx : Writes x o us) (hx' : Writes x o' vs) :
    o = o' ∧ us = vs := by
  obtain ⟨ho, hlines⟩ := Prod.mk.inj ((hx []).symm.trans (hx' []))
  exact ⟨ho, hlines⟩

end

/-- `x` writes out what `y` records, and ends with what `f` makes of its result. -/
def WritesOut (f : α → β) (x : Noted Failure β) (y : Logged α) : Prop :=
  Writes x (y.outcome.map f) (y.records.map Record.line)

section
variable {γ δ : Type} {f : α → β}

theorem writesOut_pure (a : α) : WritesOut f (pure (f a)) (pure a) := writes_pure (f a)

theorem writesOut_throw (e : Failure) : WritesOut f (throw e) (Logged.fail e) := writes_of (.error e)

theorem writesOut_of (x : Except Failure α) : WritesOut f (of (x.map f)) (Logged.ofExcept x) :=
  writes_of (x.map f)

theorem writesOut_note (r : Record) : WritesOut id (note r.level r.message) (Logged.note r) :=
  writes_note r.level r.message

theorem WritesOut.bind {x : Noted Failure β} {y : Logged α} {g : γ → δ} {k : β → Noted Failure δ}
    {l : α → Logged γ} (hx : WritesOut f x y) (hk : ∀ a, WritesOut g (k (f a)) (l a)) :
    WritesOut g (x >>= k) (y >>= l) := by
  cases y with
  | mk records outcome =>
    cases outcome with
    | error e => exact Writes.bind_error hx
    | ok a =>
      have hboth := Writes.bind hx (hk a)
      rwa [← List.map_append] at hboth

theorem WritesOut.error_iff {x : Noted Failure β} {y : Logged α} (h : WritesOut f x y) {e : Failure} :
    (∃ lines, Writes x (.error e) lines) ↔ y.outcome = .error e := by
  constructor
  · intro hx
    obtain ⟨lines, hx⟩ := hx
    have hmap := (Writes.outcome_eq h hx).1
    cases hy : y.outcome with
    | error e' =>
      rw [hy] at hmap
      cases hmap
      rfl
    | ok a =>
      rw [hy] at hmap
      cases hmap
  · intro hy
    rw [WritesOut, hy] at h
    exact ⟨_, h⟩

end
end Noted
end DecimalPoly.Plain
