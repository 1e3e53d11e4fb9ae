import DecimalPoly.Journal
import Mathlib.Data.List.Forall2

/-! Outcomes of logged computations: what follows a success decides. -/
namespace DecimalPoly
variable {α β γ : Type}

theorem ok_bind {ε : Type} (a : α) (f : α → Except ε β) : (Except.ok a >>= f) = f a := rfl

theorem bind_eq_ok {ε : Type} {x : Except ε α} {f : α → Except ε β} {b : β} :
    (x >>= f) = .ok b ↔ ∃ a, x = .ok a ∧ f a = .ok b := by
  cases x with
  | error e =>
    constructor
    · intro h
      cases h
    · intro h
      obtain ⟨a, ha, -⟩ := h
      cases ha
  | ok a =>
    constructor
    · exact fun h => ⟨a, rfl, h⟩
    · intro hb
      obtain ⟨a, ⟨⟩, h⟩ := hb
      exact h

theorem bind_eq_error {ε : Type} {x : Except ε α} {f : α → Except ε β} {e : ε} :
    (x >>= f) = .error e ↔ x = .error e ∨ ∃ a, x = .ok a ∧ f a = .error e := by
  cases x with
  | error e' =>
    change Except.error e' = Except.error e ↔ _
    simp
  | ok a =>
    change f a = .error e ↔ _
    simp

theorem map_eq_ok {ε : Type} {x : Except ε α} {f : α → β} {b : β} :
    f <$> x = .ok b ↔ ∃ a, x = .ok a ∧ b = f a := by
  cases x <;> simp [Functor.map, Except.map, eq_comm]

theorem map_eq_error {ε : Type} {x : Except ε α} {f : α → β} {e : ε} :
    f <$> x = .error e ↔ x = .error e := by
  cases x <;> simp [Functor.map, Except.map]

theorem map_map_of_eq {ε γ : Type} {x : Except ε α} {k : α → β} {g : β → γ} {f : α → γ}
    (h : ∀ a, g (k a) = f a) : (x.map k).map g = x.map f := by
  cases x with
  | error e => rfl
  | ok a => exact congrArg Except.ok (h a)

/-- A computation that can fail in one way only fails where it has no result. -/
theorem eq_error_iff {ε : Type} {x : Except ε α} {e₀ e : ε} (h : ∀ e, x = .error e → e = e₀) :
    x = .error e ↔ (¬∃ a, x = .ok a) ∧ e = e₀ := by
  cases x with
  | error e' =>
    obtain rfl := h e' rfl
    simp [eq_comm]
  | ok a => simp

theorem mapError_eq_ok {ε ε' : Type} {x : Except ε α} {f : ε → ε'} {a : α} :
    x.mapError f = .ok a ↔ x = .ok a := by
  cases x with
  | error e =>
    constructor
    · intro h
      cases h
    · intro h
      cases h
  | ok b =>
    constructor
    · intro h
      cases h
      rfl
    · intro h
      cases h
      rfl

theorem mapError_eq_error {ε ε' : Type} {x : Except ε α} {f : ε → ε'} {e : ε'} :
    x.mapError f = .error e ↔ ∃ e', x = .error e' ∧ f e' = e := by
  cases x with
  | error e' =>
    change Except.error (f e') = Except.error e ↔ _
    simp
  | ok a =>
    change Except.ok a = Except.error e ↔ _
    simp

theorem eq_of_mapError_eq_error {ε ε' : Type} {x : Except ε α} {e₀ e : ε'}
    (h : x.mapError (fun _ => e₀) = .error e) : e = e₀ := by
  obtain ⟨-, -, rfl⟩ := mapError_eq_error.mp h
  rfl

section Lists
variable {ε : Type} {f : α → Except ε β} {as : List α}

theorem mapM_eq_ok {bs : List β} :
    as.mapM f = .ok bs ↔ List.Forall₂ (fun a b => f a = .ok b) as bs := by
  induction as generalizing bs with
  | nil =>
    rw [List.mapM_nil, List.forall₂_nil_left_iff]
    constructor
    · intro h
      cases h
      rfl
    · intro h
      rw [h]
      rfl
  | cons a as ih =>
    rw [List.mapM_cons, List.forall₂_cons_left_iff]
    simp only [bind_eq_ok, ih]
    constructor
    · intro h
      obtain ⟨b, hb, bs', hbs', ⟨⟩⟩ := h
      exact ⟨b, bs', hb, hbs', rfl⟩
    · intro h
      obtain ⟨b, bs', hb, hbs', rfl⟩ := h
      exact ⟨b, hb, bs', hbs', rfl⟩

theorem exists_of_mem_right {R : α → β → Prop} {bs : List β} {b : β} (h : List.Forall₂ R as bs)
    (hb : b ∈ bs) : ∃ a ∈ as, R a b := by
  induction h with
  | nil => cases hb
  | cons hab hrest ih =>
    cases List.mem_cons.mp hb with
    | inl heq => exact ⟨_, List.mem_cons_self, heq ▸ hab⟩
    | inr hmem =>
      obtain ⟨a, ha, hab⟩ := ih hmem
      exact ⟨a, List.mem_cons_of_mem _ ha, hab⟩

theorem exists_of_mem_mapM {bs : List β} {b : β} (h : as.mapM f = .ok bs) (hb : b ∈ bs) :
    ∃ a ∈ as, f a = .ok b :=
  exists_of_mem_right (R := fun a b => f a = .ok b) (mapM_eq_ok.mp h) hb

theorem exists_mapM_iff : (∃ bs, as.mapM f = .ok bs) ↔ ∀ a ∈ as, ∃ b, f a = .ok b := by
  induction as with
  | nil => exact ⟨fun _ => List.forall_mem_nil _, fun _ => ⟨[], rfl⟩⟩
  | cons a as ih =>
    rw [List.forall_mem_cons, ← ih, List.mapM_cons]
    simp only [bind_eq_ok]
    constructor
    · intro h
      obtain ⟨-, b, hb, bs, hbs, -⟩ := h
      exact ⟨⟨b, hb⟩, bs, hbs⟩
    · intro h
      obtain ⟨⟨b, hb⟩, bs, hbs⟩ := h
      exact ⟨b :: bs, b, hb, bs, hbs, rfl⟩

theorem mapM_eq_error {e : ε} : as.mapM f = .error e ↔ ∃ before a after, as = before ++ a :: after ∧
    (∀ a ∈ before, ∃ b, f a = .ok b) ∧ f a = .error e := by
  induction as with
  | nil => simp [Pure.pure, Except.pure]
  | cons a as ih =>
    have hcons : (a :: as).mapM f = .error e ↔
        f a = .error e ∨ ∃ b, f a = .ok b ∧ as.mapM f = .error e := by
      rw [List.mapM_cons]
      simp only [bind_eq_error]
      simp [Pure.pure, Except.pure]
    rw [hcons, ih]
    constructor
    · intro h
      cases h with
      | inl ha => exact ⟨[], a, as, rfl, List.forall_mem_nil _, ha⟩
      | inr hlater =>
        obtain ⟨b, hb, before, a', after, rfl, hbefore, ha'⟩ := hlater
        exact ⟨a :: before, a', after, rfl, List.forall_mem_cons.mpr ⟨⟨b, hb⟩, hbefore⟩, ha'⟩
    · intro h
      obtain ⟨before, a', after, has, hbefore, ha'⟩ := h
      cases before with
      | nil =>
        cases has
        exact .inl ha'
      | cons c before =>
        cases has
        obtain ⟨⟨b, hb⟩, hbefore⟩ := List.forall_mem_cons.mp hbefore
        exact .inr ⟨b, hb, before, a', after, rfl, hbefore, ha'⟩

end Lists

namespace Logged

theorem outcome_bind {x : Logged α} {a : α} (h : x.outcome = .ok a) (f : α → Logged β) :
    (x >>= f).outcome = (f a).outcome := by
  cases x with
  | mk records outcome =>
    obtain rfl : outcome = .ok a := h
    rfl

theorem records_bind {x : Logged α} {a : α} (h : x.outcome = .ok a) (f : α → Logged β) :
    (x >>= f).records = x.records ++ (f a).records := by
  cases x with
  | mk records outcome =>
    obtain rfl : outcome = .ok a := h
    rfl

theorem bind_of_error {x : Logged α} {e : Failure} (h : x.outcome = .error e) (f : α → Logged β) :
    x >>= f = ⟨x.records, .error e⟩ := by
  cases x with
  | mk records outcome =>
    obtain rfl : outcome = .error e := h
    rfl

theorem outcome_map {x : Logged α} {a : α} (h : x.outcome = .ok a) (f : α → β) :
    (f <$> x).outcome = .ok (f a) := by
  cases x with
  | mk records outcome =>
    obtain rfl : outcome = .ok a := h
    rfl

theorem outcome_forM {f : α → Logged PUnit} (hf : ∀ a, (f a).outcome = .ok ⟨⟩) (as : List α) :
    (as.forM f).outcome = .ok ⟨⟩ := by
  induction as with
  | nil => rfl
  | cons a as ih =>
    change (f a >>= fun _ => as.forM f).outcome = _
    rw [outcome_bind (hf a), ih]

theorem records_forM (f : α → Record) (as : List α) :
    (as.forM fun a => note (f a)).records = as.map f := by
  induction as with
  | nil => rfl
  | cons a as ih =>
    change (note (f a) >>= fun _ => as.forM fun a => note (f a)).records = _
    rw [records_bind (a := ⟨⟩) rfl, ih]
    rfl

theorem outcome_bind_eq (x : Logged α) (f : α → Logged β) :
    (x >>= f).outcome = x.outcome >>= fun a => (f a).outcome := by
  cases x with
  | mk records outcome => cases outcome <;> rfl

theorem outcome_bind_eq_ok {x : Logged α} {f : α → Logged β} {b : β} :
    (x >>= f).outcome = .ok b ↔ ∃ a, x.outcome = .ok a ∧ (f a).outcome = .ok b := by
  rw [outcome_bind_eq, bind_eq_ok]

theorem outcome_bind_eq_error {x : Logged α} {f : α → Logged β} {e : Failure} :
    (x >>= f).outcome = .error e ↔
      x.outcome = .error e ∨ ∃ a, x.outcome = .ok a ∧ (f a).outcome = .error e := by
  rw [outcome_bind_eq, bind_eq_error]

theorem outcome_pure_eq_ok {a b : α} : (pure a : Logged α).outcome = .ok b ↔ b = a := by
  constructor
  · intro h
    cases h
    rfl
  · intro h
    rw [h]
    rfl

theorem outcome_fail_ne_ok {e : Failure} {a : α} : (fail e).outcome ≠ .ok a := by
  intro h
  cases h

theorem outcome_fail_eq_error {e e' : Failure} :
    (fail e : Logged α).outcome = .error e' ↔ e' = e := by
  constructor
  · intro h
    cases h
    rfl
  · intro h
    rw [h]
    rfl

theorem outcome_map_eq_ok {x : Logged α} {f : α → β} {b : β} :
    (f <$> x).outcome = .ok b ↔ ∃ a, x.outcome = .ok a ∧ b = f a := map_eq_ok

theorem outcome_map_eq_error {x : Logged α} {f : α → β} {e : Failure} :
    (f <$> x).outcome = .error e ↔ x.outcome = .error e := map_eq_error

theorem ext {x y : Logged α} (hr : x.records = y.records) (ho : x.outcome = y.outcome) : x = y := by
  cases x; cases y; simp_all

theorem bind_assoc (x : Logged α) (f : α → Logged β) (g : β → Logged γ) :
    x >>= f >>= g = x >>= fun a => f a >>= g := by
  cases x with
  | mk records outcome =>
    cases outcome with
    | error e => rfl
    | ok a =>
      change (⟨records ++ (f a).records, (f a).outcome⟩ : Logged β) >>= g =
        ⟨records ++ (f a >>= g).records, (f a >>= g).outcome⟩
      cases f a with
      | mk more outcome =>
        cases outcome with
        | error e => rfl
        | ok b => exact ext (List.append_assoc ..) rfl

theorem bind_pure_comp (f : α → β) (x : Logged α) : (x >>= fun a => pure (f a)) = f <$> x := by
  cases x with
  | mk records outcome =>
    cases outcome with
    | error e => rfl
    | ok a => exact ext (List.append_nil _) rfl

theorem id_map (x : Logged α) : id <$> x = x := by
  cases x with
  | mk records outcome => cases outcome <;> rfl

instance : LawfulMonad Logged :=
  LawfulMonad.mk' Logged id_map (fun _ _ => rfl) bind_assoc
    (by intros; rfl) (by intros; rfl) (by intros; rfl) bind_pure_comp (by intros; rfl)

instance : MonadExceptOf Failure Logged where
  throw := fail
  tryCatch x handler :=
    match x.outcome with
    | .error e => ⟨x.records ++ (handler e).records, (handler e).outcome⟩
    | .ok _ => x

theorem throw_eq_fail (e : Failure) : (throw e : Logged α) = fail e := rfl

theorem ofExcept_bind (x : Except Failure α) (f : α → Except Failure β) :
    ofExcept (x >>= f) = ofExcept x >>= fun a => ofExcept (f a) := by
  cases x <;> rfl

theorem ofExcept_pure (a : α) : ofExcept (pure a) = pure a := rfl

theorem outcome_mapM (f : α → Logged β) (as : List α) :
    (as.mapM f).outcome = as.mapM fun a => (f a).outcome := by
  induction as with
  | nil => rfl
  | cons a as ih =>
    rw [List.mapM_cons, List.mapM_cons, outcome_bind_eq, ← ih]
    simp only [outcome_bind_eq]
    rfl

theorem exists_outcome_mapM_iff {f : α → Logged β} {as : List α} :
    (∃ bs, (as.mapM f).outcome = .ok bs) ↔ ∀ a ∈ as, ∃ b, (f a).outcome = .ok b := by
  rw [outcome_mapM]
  exact exists_mapM_iff

theorem outcome_mapM_eq_error {f : α → Logged β} {as : List α} {e : Failure} :
    (as.mapM f).outcome = .error e ↔ ∃ before a after, as = before ++ a :: after ∧
      (∀ a ∈ before, ∃ b, (f a).outcome = .ok b) ∧ (f a).outcome = .error e := by
  rw [outcome_mapM]
  exact mapM_eq_error

end Logged
end DecimalPoly
