import DecimalPoly.Precision
import DecimalPoly.SparsePoly.LongDivision
import Mathlib.Algebra.Group.Nat.Hom
import Mathlib.Data.List.Basic

/-! Which precision a division uses, in the sessions of one thread. Changes of the environment
variable, settings and divisions come in any order. One event decides for a division that names no
precision: the last setting before it or else the first division that names none, which may be the
division itself. The variable counts as it stands at that event. -/
namespace DecimalPoly

inductive Wanted where
  | quotient
  | remainder
  | both

def Wanted.divide (w : Wanted) (a b : SparsePoly) (precision : Nat) : Logged (List SparsePoly) :=
  match w with
  | .quotient => (fun q => [q]) <$> a.quotient b precision
  | .remainder => (fun qr => [qr.2]) <$> a.divRem b precision
  | .both => (fun qr => [qr.1, qr.2]) <$> a.divRem b precision

/-- The text of a word of 64 bits: digits, after at most one plus sign. -/
def DenotesWord (s : String) (n : Nat) : Prop :=
  ∃ sign digits, s.toList = sign ++ digits ∧ (sign = [] ∨ sign = ['+']) ∧ digits ≠ [] ∧
    (∀ c ∈ digits, c.isDigit = true) ∧ n = Nat.ofDigitChars 10 digits 0 ∧ n < 2 ^ 64

namespace Session

inductive Event where
  /-- The variable is set or removed. A value that is not Unicode counts as none. -/
  | setEnvironment (value : Option String)
  | setPrecision (n : Nat)
  | divide (wanted : Wanted) (a b : SparsePoly) (explicit : Option Nat)

structure Division where
  precision : Nat
  answer : Logged (List SparsePoly)

def perform (w : Wanted) (a b : SparsePoly) (precision : Nat) : Division :=
  ⟨precision, w.divide a b precision⟩

namespace Event

def action : Event → Settings.Action
  | setEnvironment value => .setEnvironment value
  | setPrecision n => .setPrecision n
  | divide _ _ _ explicit => .divide explicit

def respond (s : Settings) : Event → Option Division
  | divide w a b explicit => some (perform w a b (s.precisionFor explicit))
  | _ => none

def change? : Event → Option (Option String)
  | setEnvironment value => some value
  | _ => none

def isChange (e : Event) : Bool := e.change?.isSome

def isSetting : Event → Bool
  | setPrecision _ => true
  | _ => false

def isUnnamed : Event → Bool
  | divide _ _ _ none => true
  | _ => false

end Event

def after (s : Settings) (es : List Event) : Settings := es.foldl (fun s e => s.act e.action) s

def divisions : Settings → List Event → List Division
  | _, [] => []
  | s, e :: es => (e.respond s).toList ++ divisions (s.act e.action) es

def variableAfter (environment : Option String) (es : List Event) : Option String :=
  (es.filterMap Event.change?).getLastD environment

/-- Between `earlier` and `later` stands the event that decides on the precision of an unnamed
division at the end of all these. It requests the last number if the variable does not say. -/
inductive Decides : List Event → Event → List Event → Nat → Prop
  | setting {earlier later : List Event} {n : Nat} (hlast : ∀ e ∈ later, e.isSetting = false) :
      Decides earlier (.setPrecision n) later n
  | division {earlier later : List Event} {w : Wanted} {a b : SparsePoly}
      (hnone : ∀ e ∈ earlier, e.isSetting = false) (hfirst : ∀ e ∈ earlier, e.isUnnamed = false)
      (hlast : ∀ e ∈ later, e.isSetting = false) : Decides earlier (.divide w a b none) later 28

/-- A valid value of the variable wins over the number that is requested. -/
inductive Chosen (value : Option String) (requested : Nat) : Nat → Prop
  | value {s : String} {n : Nat} (hs : value = some s) (h : DenotesWord s n) :
      Chosen value requested n
  | requested (h : ∀ s n, value = some s → ¬DenotesWord s n) : Chosen value requested requested

section Words
variable {s : String} {sign digits : List Char}

theorem readWord?_of_split (hs : s.toList = sign ++ digits) (hsign : sign = [] ∨ sign = ['+'])
    (hdigits : sign = [] → digits.head? ≠ some '+') :
    readWord? s = if digits ≠ [] ∧ digits.all Char.isDigit ∧
      Nat.ofDigitChars 10 digits 0 ≤ maxWord then some (Nat.ofDigitChars 10 digits 0) else none := by
  rw [readWord?, hs]
  cases hsign with
  | inl hnil =>
    subst hnil
    rw [List.nil_append]
    split
    · simp at hdigits
    · rfl
  | inr hplus =>
    subst hplus
    rfl

theorem exists_split (s : String) : ∃ sign digits, s.toList = sign ++ digits ∧
    (sign = [] ∨ sign = ['+']) ∧ (sign = [] → digits.head? ≠ some '+') := by
  by_cases hplus : s.toList.head? = some '+'
  · obtain ⟨digits, hs⟩ := List.head?_eq_some_iff.mp hplus
    exact ⟨['+'], digits, hs, .inr rfl, by simp⟩
  · exact ⟨[], s.toList, rfl, .inl rfl, fun _ => hplus⟩

theorem readWord?_iff {n : Nat} : readWord? s = some n ↔ DenotesWord s n := by
  constructor
  · intro h
    obtain ⟨sign, digits, hs, hsign, hhead⟩ := exists_split s
    rw [readWord?_of_split hs hsign hhead] at h
    split at h
    · next hvalid =>
      obtain ⟨hne, hall, hle⟩ := hvalid
      obtain rfl := Option.some.inj h
      exact ⟨sign, digits, hs, hsign, hne, List.all_eq_true.mp hall, rfl, Nat.lt_succ_of_le hle⟩
    · cases h
  · rintro ⟨sign, digits, hs, hsign, hne, hdigits, rfl, hlt⟩
    have hhead : digits.head? ≠ some '+' := by
      intro hplus
      obtain ⟨cs, rfl⟩ := List.head?_eq_some_iff.mp hplus
      exact absurd (hdigits '+' List.mem_cons_self) (by decide)
    rw [readWord?_of_split hs hsign fun _ => hhead]
    exact if_pos ⟨hne, List.all_eq_true.mpr hdigits, Nat.le_of_lt_succ hlt⟩

end Words

theorem exists_chosen (value : Option String) (requested : Nat) :
    ∃ n, Chosen value requested n := by
  cases h : value.bind readWord? with
  | none =>
    refine ⟨requested, .requested fun s n hs hword => ?_⟩
    subst hs
    rw [Option.bind_some, readWord?_iff.mpr hword] at h
    cases h
  | some n =>
    obtain ⟨s, hs, hn⟩ := Option.bind_eq_some_iff.mp h
    exact ⟨n, .value hs (readWord?_iff.mp hn)⟩

theorem resolve_of_chosen {s : Settings} {requested n : Nat}
    (h : Chosen s.environment requested n) : s.resolve requested = max 1 n := by
  rw [Settings.resolve]
  cases h with
  | value hs hword => rw [hs, Option.bind_some, readWord?_iff.mpr hword, Option.getD_some]
  | requested hno =>
    have hnone : s.environment.bind readWord? = none := by
      rw [Option.bind_eq_none_iff]
      intro text ht
      by_contra hread
      obtain ⟨m, hm⟩ := Option.ne_none_iff_exists'.mp hread
      exact hno text m ht (readWord?_iff.mp hm)
    rw [hnone, Option.getD_none]

section Run
variable {s : Settings} {e : Event} {es : List Event} {p : Nat}

theorem after_append (s : Settings) (xs ys : List Event) :
    after s (xs ++ ys) = after (after s xs) ys := List.foldl_append

theorem divisions_append (s : Settings) (xs ys : List Event) :
    divisions s (xs ++ ys) = divisions s xs ++ divisions (after s xs) ys := by
  induction xs generalizing s with
  | nil => rfl
  | cons e xs ih =>
    rw [List.cons_append, divisions, ih, divisions, List.append_assoc]
    rfl

theorem environment_act (s : Settings) (e : Event) :
    (s.act e.action).environment = e.change?.getD s.environment := by
  cases e with
  | setEnvironment value => rfl
  | setPrecision n => rfl
  | divide w a b explicit => cases explicit <;> rfl

theorem variableAfter_cons (environment : Option String) (e : Event) (es : List Event) :
    variableAfter environment (e :: es) = variableAfter (e.change?.getD environment) es := by
  rw [variableAfter, List.filterMap_cons]
  cases e.change? with
  | none => rfl
  | some value => exact List.getLastD_cons ..

theorem environment_after (s : Settings) (es : List Event) :
    (after s es).environment = variableAfter s.environment es := by
  induction es generalizing s with
  | nil => rfl
  | cons e es ih =>
    rw [variableAfter_cons, ← environment_act]
    exact ih _

theorem after_keeps {P : Settings → Prop} (hs : P s)
    (hact : ∀ e ∈ es, ∀ s, P s → P (s.act e.action)) : P (after s es) :=
  List.foldlRecOn es _ hs fun s hs e he => hact e he s hs

theorem settled_act (hs : s.settled = some p) (he : e.isSetting = false) :
    (s.act e.action).settled = some p := by
  cases e with
  | setEnvironment value => exact hs
  | setPrecision n => cases he
  | divide w a b explicit =>
    cases explicit with
    | none =>
      change some (s.settled.getD _) = some p
      rw [hs, Option.getD_some]
    | some n => exact hs

theorem settled_after (hs : s.settled = some p) (hes : ∀ e ∈ es, e.isSetting = false) :
    (after s es).settled = some p :=
  after_keeps (P := fun s => s.settled = some p) hs fun e he _ hs => settled_act hs (hes e he)

theorem unsettled_act (hs : s.settled = none) (he : e.isSetting = false)
    (hu : e.isUnnamed = false) : (s.act e.action).settled = none := by
  cases e with
  | setEnvironment value => exact hs
  | setPrecision n => cases he
  | divide w a b explicit =>
    cases explicit with
    | none => cases hu
    | some n => exact hs

theorem unsettled_after (hs : s.settled = none) (hes : ∀ e ∈ es, e.isSetting = false)
    (hus : ∀ e ∈ es, e.isUnnamed = false) : (after s es).settled = none :=
  after_keeps (P := fun s => s.settled = none) hs fun e he _ hs =>
    unsettled_act hs (hes e he) (hus e he)

theorem respond_of_settled (hs : s.settled = some p) (e : Event) :
    e.respond s = e.respond ⟨none, some p⟩ := by
  cases e with
  | setEnvironment value => rfl
  | setPrecision n => rfl
  | divide w a b explicit =>
    simp only [Event.respond, Settings.precisionFor, hs, Option.getD_some]

theorem divisions_of_settled (hs : s.settled = some p) (hes : ∀ e ∈ es, e.isSetting = false) :
    divisions s es = es.filterMap (Event.respond ⟨none, some p⟩) := by
  induction es generalizing s with
  | nil => rfl
  | cons e es ih =>
    obtain ⟨he, hes⟩ := List.forall_mem_cons.mp hes
    rw [divisions, respond_of_settled hs, ih (settled_act hs he) hes, List.filterMap_cons]
    cases e.respond ⟨none, some p⟩ <;> rfl

theorem eq_of_isChange (h : e.isChange = true) : ∃ value, e = .setEnvironment value := by
  cases e with
  | setEnvironment value => exact ⟨value, rfl⟩
  | setPrecision n => cases h
  | divide w a b explicit => cases h

theorem divisions_of_filter_eq {es' : List Event} (hs : s.settled = some p)
    (hes : ∀ e ∈ es, e.isSetting = false)
    (h : es'.filter (!·.isChange) = es.filter (!·.isChange)) : divisions s es' = divisions s es := by
  have hes' : ∀ e ∈ es', e.isSetting = false := by
    intro e he
    by_cases hchange : e.isChange = true
    · obtain ⟨value, rfl⟩ := eq_of_isChange hchange
      rfl
    · have hmem : e ∈ es'.filter (!·.isChange) := List.mem_filter.mpr ⟨he, by simpa using hchange⟩
      rw [h] at hmem
      exact hes e (List.mem_filter.mp hmem).1
  -- a change of the variable is answered with nothing
  have hanswers (fs : List Event) : fs.filterMap (Event.respond ⟨none, some p⟩) =
      (fs.filter (!·.isChange)).filterMap (Event.respond ⟨none, some p⟩) := by
    rw [List.filterMap_filter]
    congr 1
    funext e
    split
    · rfl
    · next hchange =>
      obtain ⟨value, rfl⟩ := eq_of_isChange (by simpa using hchange)
      rfl
  rw [divisions_of_settled hs hes', divisions_of_settled hs hes, hanswers, h, ← hanswers]

end Run

section Deciding
variable {s : Settings} {e : Event} {earlier later before : List Event} {requested n : Nat}
variable {w : Wanted} {a b : SparsePoly}

theorem Decides.later_isSetting (h : Decides earlier e later requested) :
    ∀ f ∈ later, f.isSetting = false := by
  cases h with
  | setting hlast => exact hlast
  | division hnone hfirst hlast => exact hlast

theorem Decides.settled (h : Decides earlier e later requested) (hs : s.settled = none)
    (hn : Chosen (variableAfter s.environment earlier) requested n) :
    ((after s earlier).act e.action).settled = some (max 1 n) := by
  rw [← environment_after] at hn
  rw [← resolve_of_chosen hn]
  cases h with
  | setting hlast => rfl
  | division hnone hfirst hlast =>
    change some ((after s earlier).settled.getD _) = _
    rw [unsettled_after hs hnone hfirst]
    rfl

theorem after_deciding (s : Settings) (earlier : List Event) (e : Event) (later : List Event) :
    after s (earlier ++ e :: later) = after ((after s earlier).act e.action) later :=
  after_append s earlier (e :: later)

theorem Decides.precisionFor (h : Decides earlier e later requested) (hs : s.settled = none)
    (hn : Chosen (variableAfter s.environment earlier) requested n)
    (hsplit : before ++ [.divide w a b none] = earlier ++ e :: later) :
    (after s before).precisionFor none = max 1 n := by
  have hsettled := settled_after (h.settled hs hn) h.later_isSetting
  rw [← after_deciding, ← hsplit, after_append] at hsettled
  exact Option.some.inj hsettled

theorem exists_first {p : Event → Bool} {es : List Event} (h : ∃ e ∈ es, p e = true) :
    ∃ earlier e later, es = earlier ++ e :: later ∧ p e = true ∧ ∀ f ∈ earlier, p f = false := by
  obtain ⟨e, hfind⟩ := Option.isSome_iff_exists.mp (List.find?_isSome.mpr h)
  obtain ⟨he, earlier, later, hsplit, hfirst⟩ := List.find?_eq_some_iff_append.mp hfind
  exact ⟨earlier, e, later, hsplit, he, fun f hf => by simpa using hfirst f hf⟩

theorem exists_last {p : Event → Bool} {es : List Event} (h : ∃ e ∈ es, p e = true) :
    ∃ earlier e later, es = earlier ++ e :: later ∧ p e = true ∧ ∀ f ∈ later, p f = false := by
  have hreverse : ∃ e ∈ es.reverse, p e = true := by simpa using h
  obtain ⟨earlier, e, later, hsplit, he, hlast⟩ := exists_first hreverse
  refine ⟨later.reverse, e, earlier.reverse, ?_, he, fun f hf => hlast f (List.mem_reverse.mp hf)⟩
  rw [← List.reverse_reverse es, hsplit]
  simp

theorem exists_decides (before : List Event) (w : Wanted) (a b : SparsePoly) :
    ∃ earlier e later requested, before ++ [.divide w a b none] = earlier ++ e :: later ∧
      Decides earlier e later requested := by
  by_cases hsetting : ∃ e ∈ before ++ [.divide w a b none], e.isSetting = true
  · obtain ⟨earlier, e, later, hsplit, he, hlast⟩ := exists_last hsetting
    cases e with
    | setPrecision n => exact ⟨earlier, _, later, n, hsplit, .setting hlast⟩
    | setEnvironment value => cases he
    | divide w a b explicit => cases he
  · have hunnamed : ∃ e ∈ before ++ [.divide w a b none], e.isUnnamed = true :=
      ⟨_, List.mem_append_right _ List.mem_cons_self, rfl⟩
    obtain ⟨earlier, e, later, hsplit, he, hfirst⟩ := exists_first hunnamed
    have hnone : ∀ f ∈ earlier ++ e :: later, f.isSetting = false := by
      intro f hf
      rw [← hsplit] at hf
      by_contra htrue
      exact hsetting ⟨f, hf, by simpa using htrue⟩
    have hearlier := fun f hf => hnone f (List.mem_append_left _ hf)
    have hlater := fun f hf => hnone f (List.mem_append_right _ (List.mem_cons_of_mem _ hf))
    cases e with
    | divide w a b explicit =>
      cases explicit with
      | none => exact ⟨earlier, _, later, 28, hsplit, .division hearlier hfirst hlater⟩
      | some p => cases he
    | setEnvironment value => cases he
    | setPrecision n => cases he

end Deciding

theorem divisions_unnamed (s : Settings) (before rest : List Event) (w : Wanted)
    (a b : SparsePoly) : divisions s (before ++ .divide w a b none :: rest) =
      divisions s before ++ perform w a b ((after s before).precisionFor none) ::
        divisions (after s (before ++ [.divide w a b none])) rest := by
  rw [divisions_append, after_append]
  rfl

/-- Every division that names no precision has an event that decides on it, and uses what was chosen
there, at least one digit; it fails or succeeds with that. Other changes of the variable after that
event make no difference to the divisions up to it. A division that names its precision uses that
under any settings, and leaves no trace in them. -/
theorem precision_of_session (environment : Option String) :
    let start : Settings := ⟨environment, none⟩
    (∀ before w a b, ∃ earlier e later requested n,
      before ++ [.divide w a b none] = earlier ++ e :: later ∧
      Decides earlier e later requested ∧ Chosen (variableAfter environment earlier) requested n) ∧
    (∀ before w a b earlier e later requested n,
      before ++ [.divide w a b none] = earlier ++ e :: later → Decides earlier e later requested →
      Chosen (variableAfter environment earlier) requested n →
      (∀ rest, divisions start (before ++ .divide w a b none :: rest) =
        divisions start before ++ perform w a b (max 1 n) ::
          divisions (after start (before ++ [.divide w a b none])) rest) ∧
      ∀ later', later'.filter (!·.isChange) = later.filter (!·.isChange) →
        divisions start (earlier ++ e :: later') = divisions start (earlier ++ e :: later)) ∧
    ∀ s before w a b p rest,
      divisions s (before ++ .divide w a b (some p) :: rest) =
        divisions s before ++ perform w a b p :: divisions (after s before) rest ∧
      divisions s (before ++ rest) = divisions s before ++ divisions (after s before) rest ∧
      after s (before ++ .divide w a b (some p) :: rest) = after s (before ++ rest) := by
  intro start
  refine ⟨fun before w a b => ?_, fun before w a b earlier e later requested n hsplit hdecides hn =>
    ⟨fun rest => ?_, fun later' h => ?_⟩, fun s before w a b p rest => ⟨?_, ?_, ?_⟩⟩
  · obtain ⟨earlier, e, later, requested, hsplit, hdecides⟩ := exists_decides before w a b
    obtain ⟨n, hn⟩ := exists_chosen (variableAfter environment earlier) requested
    exact ⟨earlier, e, later, requested, n, hsplit, hdecides, hn⟩
  · rw [divisions_unnamed, hdecides.precisionFor rfl hn hsplit]
  · have hlater := divisions_of_filter_eq (hdecides.settled (s := start) rfl hn)
      hdecides.later_isSetting h
    rw [divisions_append, divisions, hlater, divisions_append, divisions]
  · exact divisions_append s before (.divide w a b (some p) :: rest)
  · exact divisions_append s before rest
  · rw [after_append, after_append]
    rfl

/-- A division by zero decides, with the value 0 that the variable has then. -/
theorem precision_of_session_zero_divisor :
    let start : Settings := ⟨none, none⟩
    let c := SparsePoly.constant (.ofInt 3)
    let earlier : List Event := [.setEnvironment (some "+0")]
    let failing : Event := .divide .quotient 1 0 none
    let third : Event := .divide .quotient 1 c none
    divisions start (earlier ++ failing :: [.setEnvironment (some "9"), third]) =
        divisions start (earlier ++ failing :: [.setEnvironment (some "9")]) ++
          [perform .quotient 1 c 1] ∧
      divisions start (earlier ++ failing :: [third]) =
        divisions start (earlier ++ failing :: [.setEnvironment (some "9"), third]) ∧
      (perform .quotient 1 0 1).answer.outcome = .error .divisionByZero ∧
      (perform .quotient 1 c 1).answer.outcome =
        .ok [SparsePoly.constant (.ofScaled 3 1)] := by
  intro start c earlier failing third
  have hdecides : Decides earlier failing [.setEnvironment (some "9"), third] 28 :=
    .division (by simp [earlier, Event.isSetting]) (by simp [earlier, Event.isUnnamed])
      (by simp [third, Event.isSetting])
  have hword : DenotesWord "+0" 0 :=
    ⟨['+'], ['0'], rfl, .inr rfl, by decide, List.forall_mem_singleton.mpr rfl, rfl, by decide⟩
  obtain ⟨huse, hchange⟩ := (precision_of_session none).2.1
    (earlier ++ [failing, .setEnvironment (some "9")]) .quotient 1 c earlier failing
    [.setEnvironment (some "9"), third] 28 0 rfl hdecides (.value rfl hword)
  exact ⟨huse [], hchange [third] rfl, rfl, by decide +kernel⟩

end Session
end DecimalPoly
