import DecimalPoly.Proofs.Text.Rejection

/-! The records of reading. A term is recorded when the sign behind it or the end of the text makes
it, so an accepted text records its terms and then itself, and a rejected one the terms of the segments
that were closed before its fault. A fault that a character shows is final: no text behind it is
looked at. -/
namespace DecimalPoly.Grammar
open Reader Plain

/-- The terms of the segments that a sign ends before the first foreign character, up to the first
of them that is no term. -/
inductive Closed (text : List Char) (ts : List Term) : Prop where
  | intro {clean rest : List Char} {pieces before after : List (Sign × List Char)}
      (layout : Layout text clean rest pieces) (front : ended pieces = before ++ after)
      (sound : ∀ p ∈ before, IsTerm p.2) (stop : ∀ p ∈ after.head?, ¬IsTerm p.2)
      (means : List.Forall₂ (fun piece t => Means piece.1 piece.2 t) before ts) : Closed text ts

/-- A character of the text shows a fault: it is foreign, or it is a sign behind a segment that is no
term, with no foreign character in front of it. -/
inductive Stopped (text : List Char) : Prop where
  | foreign {clean rest : List Char} {pieces : List (Sign × List Char)} {c : Char}
      (layout : Layout text clean (c :: rest) pieces) : Stopped text
  | ended {clean rest : List Char} {pieces : List (Sign × List Char)} {piece : Sign × List Char}
      (layout : Layout text clean rest pieces) (mem : piece ∈ ended pieces)
      (bad : ¬IsTerm piece.2) : Stopped text

section Terms
variable {g : Sign} {written : List Char} {t : Term} {e : Failure}
variable {piece : Sign × List Char} {pieces before after : List (Sign × List Char)} {ts : List Term}

theorem records_logTerm (h : readTerm g written = .ok t) :
    (logTerm g written).records = [.parsedTerm t] := by
  rw [logTerm, h]
  rfl

theorem records_logTerm_of_error (h : readTerm g written = .error e) :
    (logTerm g written).records = [] := by
  rw [logTerm, h]
  rfl

theorem logTerms_cons (piece : Sign × List Char) (pieces : List (Sign × List Char)) :
    logTerms (piece :: pieces) = logTerm piece.1 piece.2 >>= fun t => (t :: ·) <$> logTerms pieces := by
  rw [logTerms, List.mapM_cons]
  simp only [bind_pure_comp]
  rfl

theorem outcome_logTerms : (logTerms pieces).outcome = .ok ts ↔ List.Forall₂ Reads pieces ts := by
  rw [logTerms, Logged.outcome_mapM, mapM_eq_ok]
  simp only [outcome_logTerm]
  rfl

theorem records_logTerms (h : List.Forall₂ Reads before ts)
    (stop : ∀ p ∈ after.head?, ∃ e, readTerm p.1 p.2 = .error e) :
    (logTerms (before ++ after)).records = ts.map .parsedTerm := by
  induction h with
  | nil =>
    cases after with
    | nil => rfl
    | cons piece after =>
      obtain ⟨e, he⟩ := stop piece rfl
      rw [List.nil_append, logTerms_cons, Logged.bind_of_error (outcome_logTerm_eq_error.mpr he)]
      exact records_logTerm_of_error he
  | @cons piece t before ts hpiece _ ih =>
    have hrest : ((t :: ·) <$> logTerms (before ++ after)).records = ts.map .parsedTerm := ih
    rw [List.cons_append, logTerms_cons, Logged.records_bind (outcome_logTerm.mpr hpiece),
      records_logTerm hpiece, hrest]
    rfl

theorem records_logTerms_of_ok (h : (logTerms pieces).outcome = .ok ts) :
    (logTerms pieces).records = ts.map .parsedTerm := by
  rw [← List.append_nil pieces]
  exact records_logTerms (outcome_logTerms.mp h) (by simp)

theorem exists_front (pieces : List (Sign × List Char)) : ∃ before after,
    pieces = before ++ after ∧ (∀ p ∈ before, IsTerm p.2) ∧ ∀ p ∈ after.head?, ¬IsTerm p.2 := by
  induction pieces with
  | nil => exact ⟨[], [], rfl, by simp, by simp⟩
  | cons piece pieces ih =>
    by_cases hpiece : IsTerm piece.2
    · obtain ⟨before, after, rfl, hsound, hstop⟩ := ih
      exact ⟨piece :: before, after, rfl, List.forall_mem_cons.mpr ⟨hpiece, hsound⟩, hstop⟩
    · exact ⟨[], piece :: pieces, rfl, by simp, by simpa using hpiece⟩

end Terms

section Run
variable {text : String} {cs clean rest tail written : List Char}
variable {pieces : List (Sign × List Char)} {sign : Option Sign} {origin : Nat}
variable {ts found : List Term} {e : Failure}

theorem Layout.records_rest (layout : Layout cs clean rest pieces) (position : Nat) :
    let x := (Scanner.within sign origin found written).run Pending.log position rest >>=
      Scanner.finish Pending.log
    (∀ e, x.outcome = .error e → x.records = []) ∧
      ∀ ts, x.outcome = .ok ts → ∃ more, ts = found ++ more ∧ x.records = more.map .parsedTerm := by
  intro x
  cases rest with
  | cons c more =>
    have hx : x = Logged.fail (.invalidCharacter c position) :=
      congrArg (· >>= Scanner.finish Pending.log) (run_foreign (layout.stop c rfl) _ position more)
    rw [hx]
    exact ⟨fun _ _ => rfl, fun ts h => absurd h Logged.outcome_fail_ne_ok⟩
  | nil =>
    have hx : x = (Scanner.within sign origin found written).finish Pending.log := rfl
    rw [hx, Scanner.finish_within]
    by_cases hblank : written = []
    · rw [if_pos hblank]
      cases sign with
      | none =>
        refine ⟨fun _ _ => rfl, fun ts h => ⟨[], ?_, rfl⟩⟩
        rw [List.append_nil, Logged.outcome_pure_eq_ok.mp h]
      | some g => exact ⟨fun _ _ => rfl, fun ts h => absurd h Logged.outcome_fail_ne_ok⟩
    · rw [if_neg hblank]
      refine ⟨fun e h => ?_, fun ts h => ?_⟩
      · rw [Logged.outcome_map_eq_error, outcome_logTerm_eq_error] at h
        exact records_logTerm_of_error h
      · obtain ⟨t, ht, rfl⟩ := Logged.outcome_map_eq_ok.mp h
        exact ⟨[t], rfl, records_logTerm (outcome_logTerm.mp ht)⟩

theorem records_scan (cs : List Char) :
    let x := Scanner.start.run Pending.log 0 cs >>= Scanner.finish Pending.log
    (∀ ts, x.outcome = .ok ts → x.records = ts.map .parsedTerm) ∧
      ∀ e, x.outcome = .error e → ∀ clean rest pieces, Layout cs clean rest pieces →
        x.records = (logTerms (ended pieces)).records := by
  intro x
  have hx {clean rest : List Char} {pieces : List (Sign × List Char)} {sign : Option Sign}
      {origin : Nat} {tail : List Char} (layout : Layout cs clean rest pieces)
      (ending : Ending clean sign origin tail) : x = logTerms (ended pieces) >>= fun found =>
        (Scanner.within sign origin found (unspaced tail)).run Pending.log (width clean) rest >>=
          Scanner.finish Pending.log := by
    rw [← bind_assoc, ← layout.run ending]
  constructor
  · intro ts h
    obtain ⟨clean, rest, pieces, layout⟩ := exists_layout cs
    obtain ⟨sign, origin, tail, ending⟩ := exists_ending clean
    rw [hx layout ending] at h ⊢
    obtain ⟨found, hfound, hrest⟩ := Logged.outcome_bind_eq_ok.mp h
    obtain ⟨more, rfl, hmore⟩ := (layout.records_rest _).2 ts hrest
    rw [Logged.records_bind hfound, records_logTerms_of_ok hfound, hmore, List.map_append]
  · intro e h clean rest pieces layout
    obtain ⟨sign, origin, tail, ending⟩ := exists_ending clean
    rw [hx layout ending] at h ⊢
    cases Logged.outcome_bind_eq_error.mp h with
    | inl hterms => rw [Logged.bind_of_error hterms]
    | inr hrest =>
      obtain ⟨found, hfound, hrest⟩ := hrest
      rw [Logged.records_bind hfound, (layout.records_rest _).1 e hrest, List.append_nil]

theorem records_readTerms (h : (readTerms text).outcome = .ok ts) :
    (readTerms text).records = ts.map .parsedTerm ++ [.parsedText ts.length text] := by
  rw [readTerms_eq] at h ⊢
  obtain ⟨us, hus, hnote⟩ := Logged.outcome_bind_eq_ok.mp h
  cases hnote
  rw [Logged.records_bind hus, (records_scan _).1 _ hus]
  rfl

theorem records_readTerms_of_error (h : (readTerms text).outcome = .error e)
    (closed : Closed text.toList ts) : (readTerms text).records = ts.map .parsedTerm := by
  rw [readTerms_eq] at h ⊢
  obtain ⟨layout, front, sound, stop, means⟩ := closed
  have hfail : (Scanner.start.run Pending.log 0 text.toList >>= Scanner.finish Pending.log).outcome =
      .error e := by
    refine (Logged.outcome_bind_eq_error.mp h).resolve_right ?_
    -- the record of the whole text is no failure
    intro hnote
    obtain ⟨us, -, hnote⟩ := hnote
    cases hnote
  have hknown := layout.known_ended
  rw [front] at hknown
  obtain ⟨hbefore, hafter⟩ := List.forall_mem_append.mp hknown
  rw [Logged.bind_of_error hfail, (records_scan _).2 e hfail _ _ _ layout, front]
  refine records_logTerms ((forall₂_reads_iff hbefore).mpr ⟨sound, means⟩) fun p hp => ?_
  cases hread : readTerm p.1 p.2 with
  | error e => exact ⟨e, rfl⟩
  | ok t =>
    exact absurd ((exists_readTerm_iff (hafter p (List.mem_of_mem_head? hp))).mp ⟨t, hread⟩)
      (stop p hp)

theorem exists_closed (cs : List Char) : ∃ ts, Closed cs ts := by
  obtain ⟨clean, rest, pieces, layout⟩ := exists_layout cs
  obtain ⟨before, after, front, sound, stop⟩ := exists_front (ended pieces)
  obtain ⟨ts, means⟩ := exists_terms sound
  exact ⟨ts, .intro layout front sound stop means⟩

theorem stopped_iff :
    Stopped cs ↔ ∃ e, (Scanner.start.run Pending.log 0 cs).outcome = .error e := by
  constructor
  · intro h
    cases hrun : (Scanner.start.run Pending.log 0 cs).outcome with
    | error e => exact ⟨e, rfl⟩
    | ok s =>
      cases h with
      | @foreign clean rest pieces c layout =>
        obtain ⟨sign, origin, tail, ending⟩ := exists_ending clean
        rw [layout.run ending] at hrun
        obtain ⟨found, -, hrest⟩ := Logged.outcome_bind_eq_ok.mp hrun
        rw [run_foreign (layout.stop c rfl)] at hrest
        exact absurd hrest Logged.outcome_fail_ne_ok
      | @ended clean rest pieces piece layout mem bad =>
        obtain ⟨sign, origin, tail, ending⟩ := exists_ending clean
        rw [layout.run ending] at hrun
        obtain ⟨found, hfound, -⟩ := Logged.outcome_bind_eq_ok.mp hrun
        exact absurd ((exists_outcome_logTerms_iff layout.known_ended).mp ⟨found, hfound⟩ piece mem) bad
  · intro h
    obtain ⟨e, hrun⟩ := h
    obtain ⟨clean, rest, pieces, layout⟩ := exists_layout cs
    cases rest with
    | cons c more => exact .foreign layout
    | nil =>
      obtain ⟨sign, origin, tail, ending⟩ := exists_ending clean
      rw [layout.run ending] at hrun
      cases Logged.outcome_bind_eq_error.mp hrun with
      | inl hterms =>
        by_contra hnot
        have hall : ∀ piece ∈ ended pieces, IsTerm piece.2 := by
          intro piece hpiece
          by_contra hbad
          exact hnot (.ended layout hpiece hbad)
        obtain ⟨found, hfound⟩ := (exists_outcome_logTerms_iff layout.known_ended).mpr hall
        rw [hfound] at hterms
        cases hterms
      | inr hrest =>
        obtain ⟨found, -, hrest⟩ := hrest
        cases hrest

theorem readTerms_append_of_stopped (h : Stopped text.toList) (more : String) :
    (∃ e, (readTerms text).outcome = .error e) ∧ readTerms (text ++ more) = readTerms text := by
  obtain ⟨e, hrun⟩ := stopped_iff.mp h
  have hmore : (Scanner.start.run Pending.log 0 (text ++ more).toList).outcome = .error e ∧
      (Scanner.start.run Pending.log 0 (text ++ more).toList).records =
        (Scanner.start.run Pending.log 0 text.toList).records := by
    rw [String.toList_append, Scanner.run_append, Logged.bind_of_error hrun]
    exact ⟨rfl, rfl⟩
  have hread (s : String) (hs : (Scanner.start.run Pending.log 0 s.toList).outcome = .error e) :
      readTerms s = ⟨(Scanner.start.run Pending.log 0 s.toList).records, .error e⟩ := by
    rw [readTerms_eq, Logged.bind_of_error hs]
    rfl
  rw [hread _ hmore.1, hread _ hrun, hmore.2]
  exact ⟨⟨e, rfl⟩, rfl⟩

end Run

/-- An accepted text leaves one trace record a term, in order, and then a debug record with their
number and the text. A rejected one leaves the terms of the segments that signs have closed before
the fault, and no debug record. A fault that one of its characters shows stays the same, and so do the
records, whatever is appended; the scanner stops inside of exactly these texts. The scanner, which
writes a line when it has taken a term, has written the records out, with their levels and in their
words. -/
theorem readTerms_transcript (text : String) :
    (∀ ts, (readTerms text).outcome = .ok ts →
      (readTerms text).records = ts.map .parsedTerm ++ [.parsedText ts.length text] ∧
      (readTerms text).records.map Record.line =
        ts.map (fun t => (.trace, s!"parsed term {t.label}")) ++
          [(.debug, s!"parsed {ts.length} term(s) from {Text.quoted text}")]) ∧
    (∀ e, (readTerms text).outcome = .error e →
      (∃ ts : List Term, (readTerms text).records = ts.map .parsedTerm) ∧
      (∀ ts : List Term, (readTerms text).records = ts.map .parsedTerm ↔ Closed text.toList ts) ∧
      ∀ r ∈ (readTerms text).records, r.level = .trace) ∧
    (Stopped text.toList ↔
      ∃ e lines, (Scanner.start.run Pending.take 0 text.toList).Writes (.error e) lines) ∧
    (Stopped text.toList → ∀ more, (∃ e, (readTerms text).outcome = .error e) ∧
      readTerms (text ++ more) = readTerms text) ∧
    (scan text).Writes ((readTerms text).outcome.map Row.ofTerms)
      ((readTerms text).records.map Record.line) := by
  have hrun := Scanner.start.writesOut_run 0 text.toList
  refine ⟨fun ts h => ?_, fun e h => ?_, ?_, readTerms_append_of_stopped, writesOut_scan text⟩
  · have hrecords := records_readTerms h
    refine ⟨hrecords, ?_⟩
    rw [hrecords, List.map_append, List.map_map]
    rfl
  · obtain ⟨us, hus⟩ := exists_closed text.toList
    have hrecords := records_readTerms_of_error h hus
    refine ⟨⟨us, hrecords⟩, fun ts => ⟨fun hts => ?_, records_readTerms_of_error h⟩, ?_⟩
    · have hinj : Function.Injective Record.parsedTerm := fun _ _ => Record.parsedTerm.inj
      rwa [← List.map_injective_iff.mpr hinj (hrecords.symm.trans hts)]
    · rw [hrecords]
      intro r hr
      obtain ⟨t, -, rfl⟩ := List.mem_map.mp hr
      rfl
  · rw [stopped_iff]
    exact exists_congr fun e => hrun.error_iff.symm

/-- A text that is accepted, and one with a bad segment between a sound one and a foreign character. -/
theorem readTerms_transcript_cut :
    let x : Term := ⟨1, 1, by decide⟩
    (readTerms "x - - .5 ").outcome = .ok [x, ⟨-.ofScaled 5 1, 0, by decide⟩] ∧
      (readTerms "x - - .5 ").records =
        [.parsedTerm x, .parsedTerm ⟨-.ofScaled 5 1, 0, by decide⟩, .parsedText 2 "x - - .5 "] ∧
      (readTerms "x - 1.2.3 + 2 y").outcome = .error (.invalidNumber "1.2.3") ∧
      Closed "x - 1.2.3 + 2 y".toList [x] ∧ Stopped "x - 1.2.3 + 2 y".toList ∧
      readTerms ("x - 1.2.3 + 2 y" ++ "^2 + ?") = readTerms "x - 1.2.3 + 2 y" := by
  intro x
  have hgood : (readTerms "x - - .5 ").outcome = .ok [x, ⟨-.ofScaled 5 1, 0, by decide⟩] := by
    decide +kernel
  have hbad : (readTerms "x - 1.2.3 + 2 y").outcome = .error (.invalidNumber "1.2.3") := by
    decide +kernel
  have hrecords : (readTerms "x - 1.2.3 + 2 y").records = [x].map .parsedTerm := by decide +kernel
  obtain ⟨-, hclosed, -, happend, -⟩ := readTerms_transcript "x - 1.2.3 + 2 y"
  have hstopped : Stopped "x - 1.2.3 + 2 y".toList := stopped_iff.mpr ⟨.invalidNumber "1.2.3", rfl⟩
  exact ⟨hgood, ((readTerms_transcript _).1 _ hgood).1, hbad,
    ((hclosed _ hbad).2.1 [x]).mp hrecords, hstopped, (happend hstopped "^2 + ?").2⟩

end DecimalPoly.Grammar
