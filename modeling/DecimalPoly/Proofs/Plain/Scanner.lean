import DecimalPoly.Proofs.Plain.Notation
import DecimalPoly.Proofs.Plain.Noted
import DecimalPoly.Proofs.Plain.Row
import DecimalPoly.Proofs.Text.Segments
import Mathlib.Data.List.Induction
import Mathlib.Data.List.TakeWhile

/-! Reading terms one character at a time. The scanner collects the pieces of a term and puts the
term together at the sign behind it or at the end of the text. In the middle of a segment it has
collected what the segment has up to there, so it makes the terms, the records and the failures of
the segments one after the other. -/
namespace DecimalPoly.Plain
open Reader

/-- What the last character that is not blank was. -/
inductive Phase where
  | outside
  | sign
  | coefficient
  | marker
  | exponent
deriving DecidableEq

def Phase.inTerm : Phase → Bool
  | .outside | .sign => false
  | .coefficient | .marker | .exponent => true

structure Pending where
  negative : Bool
  coefficient : List Char
  exponent : List Char
  marked : Bool

def Pending.empty : Pending := ⟨false, [], [], false⟩

structure Scanner (τ : Type) where
  phase : Phase
  pending : Pending
  found : List τ
  lastSign : Option (Char × Nat)

namespace Scanner

section
variable {τ : Type}

def start : Scanner τ := ⟨.outside, .empty, [], none⟩

def atSign (s : Scanner τ) (g : Sign) (position : Nat) : Scanner τ :=
  { s with
    phase := .sign
    pending := { s.pending with negative := g = .minus }
    lastSign := some (g.toChar, position) }

def addNumeral (s : Scanner τ) (c : Char) : Scanner τ :=
  match s.phase with
  | .outside | .sign | .coefficient =>
    { s with
      phase := .coefficient
      pending := { s.pending with coefficient := s.pending.coefficient ++ [c] } }
  | .marker | .exponent =>
    { s with
      phase := .exponent
      pending := { s.pending with exponent := s.pending.exponent ++ [c] } }

def addMarker (s : Scanner τ) : Scanner τ :=
  { s with phase := .marker, pending := { s.pending with marked := true } }

variable {m : Type → Type} [Monad m] [MonadExceptOf Failure m] (take : Pending → m τ)

def flush (s : Scanner τ) : m (Scanner τ) :=
  if s.phase.inTerm then do
    let t ← take s.pending
    return { s with pending := .empty, found := s.found ++ [t] }
  else return s

def step (s : Scanner τ) (position : Nat) (c : Char) : m (Scanner τ) :=
  if isBlank c then return s
  else match Sign.ofChar? c with
  | some g => do return (← s.flush take).atSign g position
  | none =>
    if isNumeral c then return s.addNumeral c
    else if isMarker c then return s.addMarker
    else throw (.invalidCharacter c position)

def run (s : Scanner τ) (position : Nat) : List Char → m (Scanner τ)
  | [] => return s
  | c :: cs => do (← s.step take position c).run (position + c.utf8Size) cs

def finish (s : Scanner τ) : m (List τ) :=
  match s.phase with
  | .sign =>
    let (c, position) := s.lastSign.getD ('+', 0)
    throw (.invalidCharacter c position)
  | .outside => return s.found
  | .coefficient | .marker | .exponent => do return s.found ++ [← take s.pending]

end

end Scanner

def Entry.label (t : Entry) : String :=
  s!"Term \x7b coefficient: {t.coefficient.label}, exponent: {t.exponent} \x7d"

namespace Pending

def log (p : Pending) : Logged Term := do
  let magnitude ← Logged.ofExcept (readMagnitude p.coefficient)
  let coefficient := if p.negative then -magnitude else magnitude
  let exponent ← Logged.ofExcept (readExponent coefficient p.marked p.exponent)
  Logged.note (.parsedTerm (Term.ofExponent coefficient exponent))
  return Term.ofExponent coefficient exponent

def magnitude (p : Pending) : Except Failure Number :=
  if p.coefficient = [] then .ok (.ofInt 1) else Number.read (String.ofList p.coefficient)

def power (p : Pending) (coefficient : Number) : Except Failure Nat :=
  let digits := String.ofList p.exponent
  if p.exponent = [] then .ok (if p.marked then 1 else 0)
  else match Number.read digits with
  | .error _ => .error (.invalidTerm coefficient.text digits)
  | .ok x => x.toExponent?.elim (.error (.invalidTerm coefficient.text digits)) .ok

def take (p : Pending) : Noted Failure Entry := do
  let magnitude ← Noted.of p.magnitude
  let coefficient := if p.negative then magnitude.neg else magnitude
  let t : Entry := ⟨coefficient, ← Noted.of (p.power coefficient)⟩
  Noted.note .trace s!"parsed term {t.label}"
  return t

end Pending

def scan (text : String) : Noted Failure Row := do
  let r ← (← Scanner.start.run Pending.take 0 text.toList).finish Pending.take
  Noted.note .debug s!"parsed {r.length} term(s) from {Text.quoted text}"
  return r

namespace Scanner

def phaseAfter (sign : Option Sign) (written : List Char) : Phase :=
  match written.getLast? with
  | none => if sign = none then .outside else .sign
  | some c =>
    if isMarker c then .marker
    else if written.all isNumeral then .coefficient
    else .exponent

/-- The scanner in the segment that starts at `origin` after its characters `written`. -/
def within (sign : Option Sign) (origin : Nat) (found : List Term) (written : List Char) :
    Scanner Term where
  phase := phaseAfter sign written
  pending :=
    { negative := sign = some .minus
      coefficient := written.takeWhile isNumeral
      exponent := (written.dropWhile isNumeral).filter isNumeral
      marked := !written.all isNumeral }
  found := found
  lastSign := sign.map fun g => (g.toChar, origin - 1)

theorem isMarker_of_isNumeral {c : Char} (h : isNumeral c = true) : isMarker c = false := by
  cases hm : isMarker c with
  | false => rfl
  | true => rw [isNumeral_of_isMarker hm] at h; cases h

theorem phaseAfter_append (sign : Option Sign) (written : List Char) (c : Char) :
    phaseAfter sign (written ++ [c]) = if isMarker c then .marker
      else if (written ++ [c]).all isNumeral then .coefficient else .exponent := by
  rw [phaseAfter, List.getLast?_concat]

theorem phaseAfter_of_all {written : List Char} (h : written.all isNumeral = true)
    (sign : Option Sign) : phaseAfter sign written = .outside ∨ phaseAfter sign written = .sign ∨
      phaseAfter sign written = .coefficient := by
  induction written using List.reverseRecOn with
  | nil =>
    cases sign with
    | none => exact .inl rfl
    | some g => exact .inr (.inl rfl)
  | append_singleton written c =>
    have hc : isMarker c = false := isMarker_of_isNumeral (by simp_all)
    rw [phaseAfter_append, hc, h]
    simp

theorem phaseAfter_of_not_all {written : List Char} (h : written.all isNumeral = false)
    (sign : Option Sign) :
    phaseAfter sign written = .marker ∨ phaseAfter sign written = .exponent := by
  induction written using List.reverseRecOn with
  | nil => simp at h
  | append_singleton written c =>
    rw [phaseAfter_append, h]
    cases isMarker c <;> simp

theorem takeWhile_append_of_not_all {written : List Char} (h : written.all isNumeral = false)
    (more : List Char) :
    (written ++ more).takeWhile isNumeral = written.takeWhile isNumeral ∧
      (written ++ more).dropWhile isNumeral = written.dropWhile isNumeral ++ more := by
  induction written with
  | nil => simp at h
  | cons c cs ih =>
    cases hc : isNumeral c with
    | true =>
      have hcs : cs.all isNumeral = false := by simpa [hc] using h
      simp [hc, ih hcs]
    | false => simp [hc]

theorem takeWhile_of_all {written : List Char} (h : written.all isNumeral = true) :
    written.takeWhile isNumeral = written ∧ written.dropWhile isNumeral = [] := by
  rw [List.takeWhile_eq_self_iff, List.dropWhile_eq_nil_iff, and_self]
  exact List.all_eq_true.mp h

section
variable (sign : Option Sign) (origin : Nat) (found : List Term) (written : List Char) {c : Char}

theorem addNumeral_within (hc : isNumeral c = true) :
    (within sign origin found written).addNumeral c =
      within sign origin found (written ++ [c]) := by
  have hmarker := isMarker_of_isNumeral hc
  have hphase := phaseAfter_append sign written c
  cases hall : written.all isNumeral with
  | true =>
    have hmore : (written ++ [c]).all isNumeral = true := by simp [hall, hc]
    simp only [addNumeral, within, hphase, takeWhile_of_all hall, takeWhile_of_all hmore]
    cases phaseAfter_of_all hall sign with
    | inl h => simp [h, hc, hmarker, hall]
    | inr h =>
      cases h with
      | inl h => simp [h, hc, hmarker, hall]
      | inr h => simp [h, hc, hmarker, hall]
  | false =>
    obtain ⟨htake, hdrop⟩ := takeWhile_append_of_not_all hall [c]
    simp only [addNumeral, within, hphase, htake, hdrop]
    cases phaseAfter_of_not_all hall sign with
    | inl h => simp [h, hc, hmarker, hall]
    | inr h => simp [h, hc, hmarker, hall]

theorem addMarker_within (hm : isMarker c = true) :
    (within sign origin found written).addMarker =
      within sign origin found (written ++ [c]) := by
  have hc : isNumeral c = false := isNumeral_of_isMarker hm
  have hphase := phaseAfter_append sign written c
  cases hall : written.all isNumeral with
  | true =>
    have hnumeral : ∀ d ∈ written, isNumeral d = true := List.all_eq_true.mp hall
    simp [addMarker, within, hphase, List.takeWhile_append_of_pos hnumeral,
      List.dropWhile_append_of_pos hnumeral, takeWhile_of_all hall, hm, hc]
  | false =>
    obtain ⟨htake, hdrop⟩ := takeWhile_append_of_not_all hall [c]
    simp [addMarker, within, hphase, htake, hdrop, hm, hc]

theorem step_within (hc : Sign.ofChar? c = none) (position : Nat) :
    (within sign origin found written).step Pending.log position c =
      if isNumeral c || isMarker c || isBlank c then
        pure (within sign origin found (written ++ unspaced [c]))
      else Logged.fail (.invalidCharacter c position) := by
  rw [step, hc]
  cases hblank : isBlank c with
  | true => simp [unspaced, hblank]
  | false =>
    cases hnumeral : isNumeral c with
    | true => simp [unspaced, hblank, addNumeral_within sign origin found written hnumeral]
    | false =>
      cases hmarker : isMarker c with
      | true => simp [unspaced, hblank, addMarker_within sign origin found written hmarker]
      | false => simp [Logged.throw_eq_fail]

theorem run_within {segment : List Char} (h : ∀ c ∈ segment, Sign.ofChar? c = none)
    (position : Nat) (rest : List Char) :
    (within sign origin found written).run Pending.log position (segment ++ rest) =
      match firstForeign? position segment with
      | some (c, n) => Logged.fail (.invalidCharacter c n)
      | none => (within sign origin found (written ++ unspaced segment)).run
          Pending.log (position + width segment) rest := by
  induction segment generalizing written position with
  | nil => simp [firstForeign?, unspaced, width]
  | cons c cs ih =>
    obtain ⟨hc, hcs⟩ := List.forall_mem_cons.mp h
    have hjoin : unspaced [c] ++ unspaced cs = unspaced (c :: cs) :=
      (List.filter_append ..).symm
    rw [List.cons_append, run, step_within _ _ _ _ hc, firstForeign?]
    split
    · rw [pure_bind, ih _ hcs, List.append_assoc, hjoin, width, Nat.add_assoc]
    · rfl

end

section
variable (sign : Option Sign) (origin : Nat) (found : List Term) (written : List Char)

theorem isEmpty_dropWhile : (written.dropWhile isNumeral).isEmpty = written.all isNumeral := by
  induction written with
  | nil => rfl
  | cons c cs ih =>
    cases hc : isNumeral c with
    | true => rw [List.dropWhile_cons_of_pos hc, ih, List.all_cons, hc, Bool.true_and]
    | false => simp [hc]

theorem log_within :
    (within sign origin found written).pending.log = logTerm (sign.getD .plus) written := by
  have htake : (within sign origin found written).pending.log =
      (Logged.ofExcept (readMagnitude (written.takeWhile isNumeral)) >>= fun m =>
        Logged.ofExcept (readExponent ((sign.getD .plus).apply m) (!written.all isNumeral)
          ((written.dropWhile isNumeral).filter isNumeral)) >>= fun e =>
        Logged.note (.parsedTerm (Term.ofExponent ((sign.getD .plus).apply m) e)) >>= fun _ =>
        pure (Term.ofExponent ((sign.getD .plus).apply m) e)) := by
    cases sign with
    | none => rfl
    | some g => cases g <;> rfl
  rw [htake, logTerm, readTerm, isEmpty_dropWhile]
  simp only [Logged.ofExcept_bind, Logged.ofExcept_pure, bind_assoc, pure_bind]

theorem inTerm_phaseAfter (h : written ≠ []) : (phaseAfter sign written).inTerm = true := by
  rw [phaseAfter, List.getLast?_eq_some_getLast h]
  simp only
  cases isMarker (written.getLast h) with
  | true => rfl
  | false => cases written.all isNumeral <;> rfl

theorem atSign_eq {s : Scanner Term} {g h : Sign} {position : Nat}
    (hs : s.pending = { Pending.empty with negative := h = .minus }) :
    s.atSign g position = within (some g) (position + 1) s.found [] := by
  cases s with
  | mk phase pending found lastSign =>
    obtain rfl : pending = _ := hs
    cases g <;> rfl

theorem flush_within (g : Sign) (position : Nat) :
    (do return (← (within sign origin found written).flush Pending.log).atSign g position) =
      if written = [] then pure (within (some g) (position + 1) found [])
      else (fun t => within (some g) (position + 1) (found ++ [t]) []) <$>
        logTerm (sign.getD .plus) written := by
  by_cases h : written = []
  · subst h
    have hphase : (within sign origin found []).phase.inTerm = false := by cases sign <;> rfl
    rw [if_pos rfl, flush, hphase]
    simp only [Bool.false_eq_true, if_false, pure_bind]
    cases sign with
    | none => exact congrArg pure (atSign_eq (h := .plus) rfl)
    | some s => exact congrArg pure (atSign_eq (h := s) (by cases s <;> rfl))
  · have hphase : (within sign origin found written).phase.inTerm = true :=
      inTerm_phaseAfter sign written h
    rw [if_neg h, flush, if_pos hphase, log_within]
    simp only [bind_pure_comp, Functor.map_map]
    exact congrArg (· <$> _) (funext fun t => atSign_eq (h := .plus) rfl)

theorem finish_of_inTerm {s : Scanner Term} (h : s.phase.inTerm = true) :
    s.finish Pending.log = (fun t => s.found ++ [t]) <$> s.pending.log := by
  cases s with
  | mk phase pending found lastSign =>
    cases phase with
    | outside => cases h
    | sign => cases h
    | coefficient => exact bind_pure_comp ..
    | marker => exact bind_pure_comp ..
    | exponent => exact bind_pure_comp ..

theorem finish_within : (within sign origin found written).finish Pending.log =
    if written = [] then
      match sign with
      | none => pure found
      | some g => Logged.fail (.invalidCharacter g.toChar (origin - 1))
    else (fun t => found ++ [t]) <$> logTerm (sign.getD .plus) written := by
  by_cases h : written = []
  · subst h
    cases sign <;> rfl
  · rw [if_neg h, ← log_within sign origin found]
    exact finish_of_inTerm (inTerm_phaseAfter sign written h)

end

theorem run_append (s : Scanner Term) (position : Nat) (us vs : List Char) :
    s.run Pending.log position (us ++ vs) =
      s.run Pending.log position us >>= fun t => t.run Pending.log (position + width us) vs := by
  induction us generalizing s position with
  | nil => rfl
  | cons c us ih =>
    rw [List.cons_append, run, run, bind_assoc]
    simp only [ih, width, Nat.add_assoc]

theorem run_sign (s : Scanner Term) (g : Sign) (position : Nat) (cs : List Char) :
    s.run Pending.log position (g.toChar :: cs) =
      (do return (← s.flush Pending.log).atSign g position) >>= fun t =>
        t.run Pending.log (position + 1) cs := by
  cases g with
  | plus => rfl
  | minus => rfl

/-- From the start of a segment on the scanner reads that segment and those after it. -/
theorem run_segments (sign : Option Sign) {segment : List Char} {rest : List (Sign × List Char)}
    (hsegment : ∀ c ∈ segment, Sign.ofChar? c = none)
    (hrest : ∀ piece ∈ rest, ∀ c ∈ piece.2, Sign.ofChar? c = none)
    (position : Nat) (found : List Term) :
    ((within sign position found []).run Pending.log position
        (segment ++ rest.flatMap fun piece => piece.1.toChar :: piece.2) >>= finish Pending.log) =
      (found ++ ·) <$> readSegments position sign segment rest := by
  induction rest generalizing sign segment position found with
  | nil =>
    rw [run_within _ _ _ _ hsegment, readSegments]
    cases hforeign : firstForeign? position segment with
    | some foreign => rw [readSegment_of_foreign hforeign]; rfl
    | none =>
      -- the end of the text ends the last segment
      rw [readSegment_of_known hforeign]
      simp only [List.flatMap_nil, run, pure_bind, List.nil_append, finish_within]
      by_cases hblank : unspaced segment = []
      · rw [if_pos hblank, if_pos hblank, pure_bind]
        cases sign with
        | none => simp only [map_pure, List.append_nil]
        | some g => rfl
      · rw [if_neg hblank, if_neg hblank]
        simp only [bind_map_left, bind_pure_comp, Functor.map_map]
  | cons piece rest ih =>
    obtain ⟨g, following⟩ := piece
    obtain ⟨hfollowing, hrest⟩ := List.forall_mem_cons.mp hrest
    rw [run_within _ _ _ _ hsegment, readSegments]
    cases hforeign : firstForeign? position segment with
    | some foreign => rw [readSegment_of_foreign hforeign]; rfl
    | none =>
      -- the sign makes the term of the segment before it, and the next segment starts behind it
      rw [readSegment_of_known hforeign]
      simp only [List.flatMap_cons, List.cons_append, List.nil_append, run_sign, flush_within]
      by_cases hblank : unspaced segment = []
      · rw [if_pos hblank, if_pos hblank, pure_bind, pure_bind, ih _ hfollowing hrest]
        simp
      · rw [if_neg hblank, if_neg hblank]
        simp only [bind_map_left, bind_assoc, ih _ hfollowing hrest]
        simp [map_bind]

end Scanner

theorem readTerms_eq (text : String) :
    readTerms text = (Scanner.start.run Pending.log 0 text.toList >>= Scanner.finish Pending.log) >>=
      fun ts => Logged.note (.parsedText ts.length text) >>= fun _ => pure ts := by
  obtain ⟨hhead, hrest⟩ := ofChar?_of_mem_splitAtSigns text.toList
  have hrun := Scanner.run_segments none hhead hrest 0 []
  have hstart : Scanner.within none 0 [] [] = Scanner.start := rfl
  rw [join_splitAtSigns, hstart] at hrun
  simp only [List.nil_append, id_map'] at hrun
  simp only [readTerms, hrun]

theorem Entry.label_ofTerm (t : Term) : (Entry.ofTerm t).label = t.label := by
  have hcoefficient : (ofTerm t).coefficient.label = t.coefficient.label := Number.label_ofDecimal _
  have hexponent : (ofTerm t).exponent = t.exponent := rfl
  unfold label Term.label
  rw [hcoefficient, hexponent]

section
variable (p : Pending)

theorem Pending.magnitude_eq : p.magnitude = (readMagnitude p.coefficient).map Number.ofDecimal := by
  rw [magnitude, readMagnitude, Number.read_eq]
  split
  · rfl
  · rfl

theorem Pending.power_ofDecimal (c : Decimal) : p.power (.ofDecimal c) =
    (readExponent c p.marked p.exponent).map Subtype.val := by
  rw [power, readExponent]
  by_cases hnone : p.exponent = []
  · rw [if_pos hnone, if_pos hnone]
    cases p.marked with
    | true => rfl
    | false => rfl
  rw [if_neg hnone, if_neg hnone, Number.read_eq, Number.text_ofDecimal]
  cases Decimal.read (String.ofList p.exponent) with
  | error e => rfl
  | ok d =>
    change (Number.ofDecimal d).toExponent?.elim _ _ = (d.toExponent.mapError _).map _
    rw [Number.toExponent?_ofDecimal]
    cases d.toExponent with
    | error e => rfl
    | ok n => rfl

open Noted

theorem Pending.writesOut_take : WritesOut Entry.ofTerm p.take p.log := by
  rw [take, p.magnitude_eq]
  refine (writesOut_of (readMagnitude p.coefficient)).bind fun m => ?_
  have hsigned : (if p.negative then (Number.ofDecimal m).neg else Number.ofDecimal m) =
      .ofDecimal (if p.negative then -m else m) := by
    cases p.negative with
    | true => rfl
    | false => rfl
  dsimp only
  rw [hsigned, p.power_ofDecimal]
  refine (writesOut_of (readExponent _ p.marked p.exponent)).bind fun e => ?_
  generalize (if p.negative then -m else m) = c
  have hnote := writesOut_note (.parsedTerm (Term.ofExponent c e))
  have hlabel : Entry.label ⟨.ofDecimal c, e⟩ = (Term.ofExponent c e).label :=
    Entry.label_ofTerm (Term.ofExponent c e)
  rw [hlabel]
  exact WritesOut.bind hnote fun _ => writesOut_pure (f := Entry.ofTerm) (Term.ofExponent c e)

end

namespace Scanner
open Noted

def map {σ τ : Type} (f : σ → τ) (s : Scanner σ) : Scanner τ :=
  ⟨s.phase, s.pending, s.found.map f, s.lastSign⟩

section
variable (s : Scanner Term)

theorem writesOut_flush :
    WritesOut (map Entry.ofTerm) ((s.map Entry.ofTerm).flush Pending.take) (s.flush Pending.log) := by
  rw [flush, flush]
  change WritesOut _ (if s.phase.inTerm = true then _ else _) _
  split
  · refine (s.pending.writesOut_take).bind fun t => ?_
    have hfound := writesOut_pure (f := map Entry.ofTerm)
      { s with pending := .empty, found := s.found ++ [t] }
    rw [map, List.map_append] at hfound
    exact hfound
  · exact writesOut_pure s

theorem writesOut_step (position : Nat) (c : Char) :
    WritesOut (map Entry.ofTerm) ((s.map Entry.ofTerm).step Pending.take position c)
      (s.step Pending.log position c) := by
  rw [step, step]
  cases isBlank c with
  | true => exact writesOut_pure s
  | false =>
    cases Sign.ofChar? c with
    | some g => exact s.writesOut_flush.bind fun t => writesOut_pure (t.atSign g position)
    | none =>
      have hnumeral : (s.map Entry.ofTerm).addNumeral c = (s.addNumeral c).map Entry.ofTerm := by
        rw [addNumeral, addNumeral, map]
        cases s.phase <;> rfl
      simp only [Bool.false_eq_true, if_false, hnumeral]
      split
      · exact writesOut_pure (s.addNumeral c)
      split
      · exact writesOut_pure s.addMarker
      · exact writesOut_throw _

theorem writesOut_run (position : Nat) (cs : List Char) :
    WritesOut (map Entry.ofTerm) ((s.map Entry.ofTerm).run Pending.take position cs)
      (s.run Pending.log position cs) := by
  induction cs generalizing s position with
  | nil => exact writesOut_pure s
  | cons c cs ih => exact (s.writesOut_step position c).bind fun t => ih t _

theorem writesOut_finish : WritesOut Row.ofTerms ((s.map Entry.ofTerm).finish Pending.take)
    (s.finish Pending.log) := by
  have hlast : WritesOut Row.ofTerms
      (s.pending.take >>= fun t => pure (s.found.map Entry.ofTerm ++ [t]))
      (s.pending.log >>= fun t => pure (s.found ++ [t])) := by
    refine s.pending.writesOut_take.bind fun t => ?_
    have hfound := writesOut_pure (f := Row.ofTerms) (s.found ++ [t])
    rw [Row.ofTerms_concat] at hfound
    exact hfound
  rw [finish, finish, map]
  cases s.phase with
  | outside => exact writesOut_pure s.found
  | sign => exact writesOut_throw _
  | coefficient => exact hlast
  | marker => exact hlast
  | exponent => exact hlast

end

end Scanner

/-- The scanner that goes through a text once, with numbers as bare pairs, makes the entries of the
terms that are read, fails as reading does, and writes the records out. -/
theorem writesOut_scan (text : String) :
    Noted.WritesOut Row.ofTerms (scan text) (readTerms text) := by
  rw [readTerms_eq, bind_assoc, scan]
  refine (Scanner.start.writesOut_run 0 text.toList).bind fun s => ?_
  refine s.writesOut_finish.bind fun ts => ?_
  have hlength : (Row.ofTerms ts).length = ts.length := List.length_map _
  rw [hlength]
  exact (Noted.writesOut_note (.parsedText ts.length text)).bind fun _ => Noted.writesOut_pure ts

end DecimalPoly.Plain
