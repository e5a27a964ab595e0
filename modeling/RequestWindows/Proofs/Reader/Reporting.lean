import RequestWindows.Pipeline
import RequestWindows.Proofs.Reader.Run
import RequestWindows.Proofs.Writer.Forward

/-! The reporter remembers only the window that it reported last. That is enough, because the newest
sealed window never goes back, however the writing side goes on between the steps of a turn. -/
namespace RequestWindows

namespace Pipeline

/-- Change the reading side. -/
def withCorrelation (p : Pipeline) (s : Correlation) : Pipeline :=
  { p with
    ingestion := { p.ingestion with counters := s.counters }
    reader := s.reader
    warehouse := s.warehouse }

theorem correlate_eq {α : Type} (p : Pipeline) (act : Correlation → EventLog → Correlation × α) :
    p.correlate act =
      (p.withCorrelation (act p.correlation p.log).1, (act p.correlation p.log).2) := rfl

theorem withCorrelation_self (p : Pipeline) : p.withCorrelation p.correlation = p := rfl

end Pipeline

/-- How far a turn of the reporter has got. -/
inductive Stage
  /-- No turn is under way. -/
  | resting
  /-- A window is chosen, and its aggregates are asked for next. -/
  | chosen (key : Int)
  /-- The aggregates of a window are known, and its requests in flight are asked for next. -/
  | aggregated (key : Int) (aggregates : List OperationAggregate)
  /-- An error has ended the reporter. -/
  | ended (e : ReaderError)

/-- The window that a turn is about. -/
def Stage.key? : Stage → Option Int
  | chosen key | aggregated key _ => some key
  | resting | ended _ => none

/-- A pipeline and its reporter. -/
structure Reporting where
  pipeline : Pipeline
  stage : Stage
  /-- The window that was reported last. -/
  last : Option Int
  /-- The lines written so far. -/
  lines : List ReportLine
  /-- The windows for which a summary line was written, one after another. -/
  summaries : List Int

/-- What is done next: something with the writing side, a step of the reporter, or all steps that
are left of its turn. -/
inductive Move
  | write (a : Action)
  | advance
  | turn

/-- What is done with the writing side, one action after another. -/
def Move.writes (moves : List Move) : List Action :=
  moves.filterMap fun
    | write a => some a
    | advance | turn => none

namespace Reporting

/-- A reporter that has reported nothing yet. -/
def start (pipeline : Pipeline) : Reporting := ⟨pipeline, .resting, none, [], []⟩

/-- A query has failed. The reporter goes on only where the log of the window has been deleted. -/
def giveUp (r : Reporting) (key : Int) : ReaderError → Reporting
  | .log (.notSealed _) =>
    { r with stage := .resting, lines := r.lines ++ [.warning (Report.removedLine key)] }
  | e => { r with stage := .ended e }

/-- Write the lines on a window, the summary last. -/
def conclude (r : Reporting) (key : Int) (aggregates : List OperationAggregate)
    (inFlight : Nat) : Reporting :=
  { r with
    stage := .resting
    last := some key
    lines := r.lines ++ (aggregates.map (fun a => .info (Report.aggregateLine key a)) ++
      [.info (Report.summaryLine key inFlight r.pipeline.ingestion.counters)])
    summaries := r.summaries ++ [key] }

/-- One step of the reporter. -/
def advance (r : Reporting) : Reporting :=
  match r.stage with
  | .ended _ => r
  | .resting =>
    match r.pipeline.log.latestSealed with
    | .error e => { r with stage := .ended (.log e) }
    | .ok none => r
    | .ok (some key) => if r.last = some key then r else { r with stage := .chosen key }
  | .chosen key =>
    match r.pipeline.correlate fun s log => s.aggregateRows log key with
    | (pipeline, .error e) => { r with pipeline }.giveUp key e
    | (pipeline, .ok aggregates) => { r with pipeline, stage := .aggregated key aggregates }
  | .aggregated key aggregates =>
    match r.pipeline.correlate fun s log => s.inFlightRows log key with
    | (pipeline, .error e) => { r with pipeline }.giveUp key e
    | (pipeline, .ok requests) => { r with pipeline }.conclude key aggregates requests.length

/-- The next step of a turn that is under way. -/
def resume (r : Reporting) : Reporting := if r.stage.key? = none then r else r.advance

/-- The steps that are left of a turn, which is begun if none is under way. -/
def turn (r : Reporting) : Reporting := r.advance.resume.resume

def move (r : Reporting) : Move → Reporting
  | .write a =>
    { r with pipeline := { r.pipeline with ingestion := r.pipeline.ingestion.act a } }
  | .advance => r.advance
  | .turn => r.turn

/-- The state after some moves. -/
def run (r : Reporting) (moves : List Move) : Reporting := moves.foldl move r

section Turn

variable {r : Reporting} {key : Int}

theorem advance_of_error (hrest : r.stage = .resting) {e : LogError}
    (hlatest : r.pipeline.log.latestSealed = .error e) :
    r.advance = { r with stage := .ended (.log e) } := by
  unfold advance
  rw [hrest]
  simp only [hlatest]

theorem advance_of_nothing_new (hrest : r.stage = .resting) {newest : Option Int}
    (hlatest : r.pipeline.log.latestSealed = .ok newest) (hold : newest = none ∨ newest = r.last) :
    r.advance = r := by
  unfold advance
  rw [hrest]
  simp only [hlatest]
  rcases hold with rfl | rfl
  · rfl
  · cases hlast : r.last <;> simp

theorem advance_of_new (hrest : r.stage = .resting)
    (hlatest : r.pipeline.log.latestSealed = .ok (some key)) (hnew : r.last ≠ some key) :
    r.advance = { r with stage := .chosen key } := by
  unfold advance
  rw [hrest]
  simp only [hlatest, if_neg hnew]

theorem advance_of_chosen (hchosen : r.stage = .chosen key) :
    r.advance =
      match r.pipeline.correlation.aggregateRows r.pipeline.log key with
      | (s, .error e) => { r with pipeline := r.pipeline.withCorrelation s }.giveUp key e
      | (s, .ok aggregates) =>
        { r with
          pipeline := r.pipeline.withCorrelation s
          stage := .aggregated key aggregates } := by
  unfold advance
  rw [hchosen]
  simp only [Pipeline.correlate_eq]
  obtain ⟨s, rows⟩ := r.pipeline.correlation.aggregateRows r.pipeline.log key
  cases rows <;> rfl

theorem advance_of_aggregated {aggregates : List OperationAggregate}
    (haggregated : r.stage = .aggregated key aggregates) :
    r.advance =
      match r.pipeline.correlation.inFlightRows r.pipeline.log key with
      | (s, .error e) => { r with pipeline := r.pipeline.withCorrelation s }.giveUp key e
      | (s, .ok requests) =>
        { r with pipeline := r.pipeline.withCorrelation s }.conclude key aggregates
          requests.length := by
  unfold advance
  rw [haggregated]
  simp only [Pipeline.correlate_eq]
  obtain ⟨s, requests⟩ := r.pipeline.correlation.inFlightRows r.pipeline.log key
  cases requests <;> rfl

theorem resume_of_giveUp (r : Reporting) (key : Int) (e : ReaderError) :
    (r.giveUp key e).resume = r.giveUp key e := by
  unfold giveUp
  split <;> rfl

/-- Once a window is chosen, the rest of a turn is `Correlation.reportWindow`. -/
theorem rest_eq_reportWindow (hchosen : r.stage = .chosen key) :
    r.advance.resume =
      match r.pipeline.correlate fun s log => s.reportWindow log key with
      | (pipeline, .error e) => { r with pipeline }.giveUp key e
      | (pipeline, .ok lines) =>
        ⟨pipeline, .resting, some key, r.lines ++ lines, r.summaries ++ [key]⟩ := by
  rw [Pipeline.correlate_eq, advance_of_chosen hchosen]
  unfold Correlation.reportWindow
  obtain ⟨s, rows⟩ := r.pipeline.correlation.aggregateRows r.pipeline.log key
  cases rows with
  | error e => exact resume_of_giveUp _ key e
  | ok aggregates =>
    -- The second query is answered from where the first one has left the reading side.
    let next : Reporting :=
      { r with pipeline := r.pipeline.withCorrelation s, stage := .aggregated key aggregates }
    have hresume : next.resume = next.advance := rfl
    have hsecond : next.pipeline.correlation.inFlightRows next.pipeline.log key =
        s.inFlightRows r.pipeline.log key := rfl
    dsimp only
    change next.resume = _
    rw [hresume, advance_of_aggregated rfl, hsecond]
    obtain ⟨u, requests⟩ := s.inFlightRows r.pipeline.log key
    cases requests with
    | error e =>
      dsimp only
      unfold giveUp
      split <;> rfl
    | ok requests => rfl

/-- A whole turn is one of `Correlation.reportTurn`: the window that counts as reported last is a
new one exactly when a summary line was written. -/
theorem turn_eq_reportTurn (hrest : r.stage = .resting) :
    r.turn =
      match r.pipeline.correlate fun s log => s.reportTurn log r.last with
      | (pipeline, .ok (last, lines)) =>
        ⟨pipeline, .resting, last, r.lines ++ lines,
          r.summaries ++ if last = r.last then [] else last.toList⟩
      | (pipeline, .error e) => { r with pipeline, stage := .ended e } := by
  rw [Pipeline.correlate_eq]
  unfold turn Correlation.reportTurn
  cases hlatest : r.pipeline.log.latestSealed with
  | error e =>
    rw [advance_of_error hrest hlatest]
    rfl
  | ok newest =>
    -- Where nothing is new, the turn is over and has written nothing.
    have hidle : r.resume.resume =
        ⟨r.pipeline.withCorrelation r.pipeline.correlation, .resting, r.last, r.lines ++ [],
          r.summaries ++ []⟩ := by
      have hsame : r.resume = r := if_pos (by rw [hrest]; rfl)
      rw [hsame, hsame, List.append_nil, List.append_nil, Pipeline.withCorrelation_self, ← hrest]
    cases newest with
    | none =>
      rw [advance_of_nothing_new hrest hlatest (Or.inl rfl), hidle]
      dsimp only
      rw [if_pos rfl]
    | some key =>
      by_cases hlast : r.last = some key
      · rw [advance_of_nothing_new hrest hlatest (Or.inr hlast.symm), hidle]
        simp only [hlast, if_true]
      · have hbegun : ({ r with stage := .chosen key } : Reporting).resume =
            ({ r with stage := .chosen key } : Reporting).advance := rfl
        rw [advance_of_new hrest hlatest hlast, hbegun, rest_eq_reportWindow rfl,
          Pipeline.correlate_eq]
        simp only [if_neg hlast]
        obtain ⟨s, outcome⟩ := r.pipeline.correlation.reportWindow r.pipeline.log key
        cases outcome with
        | ok lines =>
          dsimp only
          rw [if_neg fun heq => hlast heq.symm]
          rfl
        | error e =>
          dsimp only
          unfold giveUp
          split <;> simp

end Turn

section Steps

variable {r : Reporting}

/-- What a step of the reporter comes to: it chooses the newest sealed window unless that was
reported last, it goes on without a report, or it reports the window that its turn is about. -/
inductive Advances (r : Reporting) : Reporting → Prop
  | chooses {key : Int} (hlatest : r.pipeline.log.latestSealed = .ok (some key))
      (hnew : r.last ≠ some key) : Advances r { r with stage := .chosen key }
  | goesOn (s : Correlation) (stage : Stage) (lines : List ReportLine)
      (hkey : stage.key? = none ∨ stage.key? = r.stage.key?) :
      Advances r { r with pipeline := r.pipeline.withCorrelation s, stage, lines }
  | reports {key : Int} (s : Correlation) (aggregates : List OperationAggregate) (inFlight : Nat)
      (hkey : r.stage.key? = some key) :
      Advances r
        ({ r with pipeline := r.pipeline.withCorrelation s }.conclude key aggregates inFlight)

theorem advances_giveUp (s : Correlation) (key : Int) (e : ReaderError) :
    r.Advances ({ r with pipeline := r.pipeline.withCorrelation s }.giveUp key e) := by
  unfold giveUp
  split
  · exact .goesOn s .resting _ (Or.inl rfl)
  · exact .goesOn s (.ended _) r.lines (Or.inl rfl)

theorem advance_advances (r : Reporting) : r.Advances r.advance := by
  -- One case for each stage of a turn; a reader's error ends the turn or the reporter.
  have hwaits : r.Advances r := .goesOn r.pipeline.correlation r.stage r.lines (Or.inr rfl)
  cases hstage : r.stage with
  | ended e =>
    have hover : r.advance = r := by
      unfold advance
      rw [hstage]
    rw [hover]
    exact hwaits
  | resting =>
    cases hlatest : r.pipeline.log.latestSealed with
    | error e =>
      rw [advance_of_error hstage hlatest]
      exact .goesOn r.pipeline.correlation (.ended (.log e)) r.lines (Or.inl rfl)
    | ok newest =>
      by_cases hold : newest = none ∨ newest = r.last
      · rw [advance_of_nothing_new hstage hlatest hold]
        exact hwaits
      · obtain ⟨key, rfl⟩ : ∃ key, newest = some key :=
          Option.ne_none_iff_exists'.mp fun hnone => hold (Or.inl hnone)
        have hnew : r.last ≠ some key := fun heq => hold (Or.inr heq.symm)
        rw [advance_of_new hstage hlatest hnew]
        exact .chooses hlatest hnew
  | chosen key =>
    rw [advance_of_chosen hstage]
    obtain ⟨s, rows⟩ := r.pipeline.correlation.aggregateRows r.pipeline.log key
    cases rows with
    | error e => exact advances_giveUp s key e
    | ok aggregates =>
      have hkey : (Stage.aggregated key aggregates).key? = r.stage.key? := by
        rw [hstage]
        rfl
      exact .goesOn s (.aggregated key aggregates) r.lines (Or.inr hkey)
  | aggregated key aggregates =>
    rw [advance_of_aggregated hstage]
    obtain ⟨s, requests⟩ := r.pipeline.correlation.inFlightRows r.pipeline.log key
    cases requests with
    | error e => exact advances_giveUp s key e
    | ok requests =>
      have hkey : r.stage.key? = some key := by
        rw [hstage]
        rfl
      exact .reports s aggregates requests.length hkey

end Steps

section Order

open Ingestion (times)

/-- The windows were reported in ascending order, the last of them has been the newest sealed one,
and the one that a turn is about comes after it. -/
structure Ordered (r : Reporting) (coming : List Int) : Prop where
  inOrder : r.pipeline.ingestion.InOrder coming
  ascending : r.summaries.Pairwise (· < ·)
  last_eq : r.last = r.summaries.getLast?
  reported : ∀ b, r.last = some b → r.pipeline.ingestion.WasNewest coming b
  pending : ∀ key, r.stage.key? = some key →
    r.pipeline.ingestion.WasNewest coming key ∧ ∀ b, r.last = some b → b < key

variable {r t : Reporting} {coming : List Int} {moves : List Move}

/-- Reading the logs changes nothing that a writer depends on. -/
theorem Advances.writing (h : r.Advances t) :
    t.pipeline.ingestion.log = r.pipeline.ingestion.log ∧
      t.pipeline.ingestion.writer = r.pipeline.ingestion.writer := by
  cases h <;> exact ⟨rfl, rfl⟩

/-- What follows the last of some ascending numbers follows all of them. -/
theorem pairwise_concat_of_last {l : List Int} {n : Int} (h : l.Pairwise (· < ·))
    (hlast : ∀ b, l.getLast? = some b → b < n) : (l ++ [n]).Pairwise (· < ·) := by
  rw [← List.isChain_iff_pairwise] at h ⊢
  refine List.isChain_append.mpr ⟨h, List.isChain_singleton n, ?_⟩
  intro b hb m hm
  cases hm
  exact hlast b hb

theorem Ordered.advances (h : r.Ordered coming) (hstep : r.Advances t) : t.Ordered coming := by
  obtain ⟨hlog, hwriter⟩ := hstep.writing
  have horder : t.pipeline.ingestion.InOrder coming :=
    h.inOrder.of_eq hlog (by rw [hwriter]) (by rw [hwriter]) (by rw [hwriter])
  have hnewest (b : Int) (hb : r.pipeline.ingestion.WasNewest coming b) :
      t.pipeline.ingestion.WasNewest coming b := hb.of_eq hlog (by rw [hwriter]) (by rw [hwriter])
  cases hstep with
  | @chooses key hlatest hnew =>
    refine ⟨horder, h.ascending, h.last_eq, h.reported, ?_⟩
    intro k hk
    cases hk
    refine ⟨h.inOrder.wasNewest hlatest, ?_⟩
    intro b hb
    -- The reporter only checks that it is another window; it is a later one due to the writer.
    have hle := (h.reported b hb).le_newest h.inOrder hlatest
    have hne : b ≠ key := fun heq => hnew (heq ▸ hb)
    omega
  | goesOn s stage lines hkey =>
    refine ⟨horder, h.ascending, h.last_eq, fun b hb => hnewest b (h.reported b hb), ?_⟩
    intro k hk
    rcases hkey with hnone | hsame
    · rw [show stage.key? = some k from hk] at hnone
      cases hnone
    · obtain ⟨hwas, hafter⟩ := h.pending k (hsame.symm.trans hk)
      exact ⟨hnewest k hwas, hafter⟩
  | @reports key s aggregates inFlight hkey =>
    obtain ⟨hwas, hafter⟩ := h.pending key hkey
    refine ⟨horder, ?_, ?_, ?_, ?_⟩
    · apply pairwise_concat_of_last h.ascending
      rw [← h.last_eq]
      exact hafter
    · exact List.getLast?_concat.symm
    · intro b hb
      cases hb
      exact hnewest key hwas
    · intro k hk
      cases hk

theorem Ordered.advance (h : r.Ordered coming) : r.advance.Ordered coming :=
  h.advances r.advance_advances

theorem Ordered.resume (h : r.Ordered coming) : r.resume.Ordered coming := by
  unfold Reporting.resume
  split
  · exact h
  · exact h.advance

theorem Ordered.turn (h : r.Ordered coming) : r.turn.Ordered coming := h.advance.resume.resume

theorem writer_advance (r : Reporting) :
    r.advance.pipeline.ingestion.writer = r.pipeline.ingestion.writer :=
  r.advance_advances.writing.2

theorem writer_resume (r : Reporting) :
    r.resume.pipeline.ingestion.writer = r.pipeline.ingestion.writer := by
  unfold Reporting.resume
  split
  · rfl
  · exact r.writer_advance

theorem writer_turn (r : Reporting) :
    r.turn.pipeline.ingestion.writer = r.pipeline.ingestion.writer := by
  calc r.turn.pipeline.ingestion.writer
      = r.advance.resume.pipeline.ingestion.writer := writer_resume _
    _ = r.advance.pipeline.ingestion.writer := writer_resume _
    _ = r.pipeline.ingestion.writer := r.writer_advance

/-- The writer is left as it is by the actions among the moves alone. -/
theorem writer_move (r : Reporting) (m : Move) :
    (r.move m).pipeline.ingestion.writer =
      (r.pipeline.ingestion.perform (Move.writes [m])).writer := by
  cases m with
  | write a => rfl
  | advance => exact r.writer_advance
  | turn => exact r.writer_turn

theorem Ordered.move {m : Move} (h : r.Ordered (times (Move.writes [m]) ++ coming))
    (hperiod : 0 ≤ r.pipeline.ingestion.writer.settings.cleanupPeriod)
    (hfail : ∀ faults, m ≠ .write (.fail faults))
    (hlater : ∀ now ∈ times (Move.writes [m]), ∀ t ∈ coming, now ≤ t) :
    (r.move m).Ordered coming := by
  cases m with
  | advance => exact h.advance
  | turn => exact h.turn
  | write a =>
    obtain ⟨horder, hnewest⟩ :=
      h.inOrder.act hperiod (fun faults heq => hfail faults (congrArg Move.write heq)) hlater
    refine ⟨horder, h.ascending, h.last_eq, fun b hb => hnewest b (h.reported b hb), ?_⟩
    intro key hkey
    obtain ⟨hwas, hafter⟩ := h.pending key hkey
    exact ⟨hnewest key hwas, hafter⟩

theorem times_writes_cons (m : Move) (rest : List Move) :
    times (Move.writes (m :: rest)) = times (Move.writes [m]) ++ times (Move.writes rest) := by
  have hwrites : Move.writes (m :: rest) = Move.writes [m] ++ Move.writes rest :=
    List.filterMap_append (l := [m])
  rw [hwrites]
  exact List.filterMap_append

theorem ordered_run (h : r.Ordered (times (Move.writes moves)))
    (hperiod : 0 ≤ r.pipeline.ingestion.writer.settings.cleanupPeriod)
    (hfail : ∀ faults, .write (.fail faults) ∉ moves)
    (hclock : (times (Move.writes moves)).Pairwise (· ≤ ·)) : (r.run moves).Ordered [] := by
  -- By induction on the moves. Each of them is ordered before the times that are left.
  induction moves generalizing r with
  | nil => exact h
  | cons m rest ih =>
    rw [times_writes_cons] at h hclock
    obtain ⟨_, hrest, hlater⟩ := List.pairwise_append.mp hclock
    apply ih (r := r.move m)
    · exact h.move hperiod (fun faults heq => hfail faults (heq ▸ .head _)) hlater
    · rw [writer_move, Ingestion.settings_perform]
      exact hperiod
    · exact fun faults hmem => hfail faults (.tail _ hmem)
    · exact hrest

theorem ordered_start {p : Pipeline} (hbegins : p.ingestion.Begins)
    (hhorizon : p.ingestion.writer.horizon = none) (coming : List Int) :
    (start p).Ordered coming := by
  refine ⟨hbegins.inOrder hhorizon coming, List.Pairwise.nil, rfl, ?_, ?_⟩
  · intro b hb
    cases hb
  · intro key hkey
    cases hkey

end Order

/-- However the reporter and the writing side are interleaved: as long as nothing is made to fail
and the times of the drains and cleanups do not go back, the windows for which a summary line is
written come in strictly ascending order. -/
theorem summaries_ascend (p : Pipeline) (moves : List Move) (hbegins : p.ingestion.Begins)
    (hhorizon : p.ingestion.writer.horizon = none)
    (hperiod : 0 ≤ p.ingestion.writer.settings.cleanupPeriod)
    (hfail : ∀ faults, .write (.fail faults) ∉ moves)
    (hclock : (Ingestion.times (Move.writes moves)).Pairwise (· ≤ ·)) :
    ((start p).run moves).summaries.Pairwise (· < ·) := by
  exact (ordered_run (ordered_start hbegins hhorizon _) hperiod hfail hclock).ascending

/-- A pipeline that nothing has been done with yet, with windows of ten milliseconds. -/
def tenMillisPipeline : Pipeline :=
  ⟨Ingestion.tenMillis, (Correlation.tenMillis 0).reader, .empty⟩

/-- The window that was reported last is deleted, and no sealed one is left for a while. Later a
window is deleted once it has been chosen. -/
def deletedMeanwhile : List Move :=
  [.write (.put (.event (Ingestion.startAt 5))), .write (.drain 15),
    .write (.put (.event (Ingestion.startAt 15))), .write (.drain 25), .turn,
    .write (.cleanup 30), .turn,
    .write (.put (.event (Ingestion.startAt 25))), .write (.drain 35), .turn,
    .write (.drain 45), .advance, .write (.cleanup 55), .advance,
    .write (.put (.event (Ingestion.startAt 45))), .write (.drain 55), .write (.drain 65),
    .advance, .advance, .advance]

theorem reports_skip_deleted_window :
    tenMillisPipeline.ingestion.Begins ∧ tenMillisPipeline.ingestion.writer.horizon = none ∧
      0 ≤ tenMillisPipeline.ingestion.writer.settings.cleanupPeriod ∧
      (∀ faults, .write (.fail faults) ∉ deletedMeanwhile) ∧
      (Ingestion.times (Move.writes deletedMeanwhile)).Pairwise (· ≤ ·) ∧
      ((start tenMillisPipeline).run deletedMeanwhile).summaries = [0, 10, 40] ∧
      .warning (Report.removedLine 20) ∈
        ((start tenMillisPipeline).run deletedMeanwhile).lines ∧
      ((start tenMillisPipeline).run deletedMeanwhile).summaries.Pairwise (· < ·) := by
  have hbegins : tenMillisPipeline.ingestion.Begins := ⟨rfl, rfl, rfl, rfl⟩
  have hperiod : 0 ≤ tenMillisPipeline.ingestion.writer.settings.cleanupPeriod := by decide
  have hfail : ∀ faults, .write (.fail faults) ∉ deletedMeanwhile := by
    intro faults h
    simp [deletedMeanwhile] at h
  have hclock : (Ingestion.times (Move.writes deletedMeanwhile)).Pairwise (· ≤ ·) := by decide
  exact ⟨hbegins, rfl, hperiod, hfail, hclock, by decide +kernel, by decide +kernel,
    summaries_ascend tenMillisPipeline deletedMeanwhile hbegins rfl hperiod hfail hclock⟩

end Reporting

end RequestWindows
