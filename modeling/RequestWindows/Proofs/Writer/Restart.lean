import RequestWindows.Proofs.EventLog.Alike
import RequestWindows.Proofs.EventLog.Wipe
import RequestWindows.Proofs.Writer.Run
import RequestWindows.Writer.Background

/-! A writer that is started again cannot be told apart from a new one on a directory that holds
only the entries that are no logs: step by step both do the same (`Parallel`). -/
namespace RequestWindows

/-- The counters after several increments, one after another. -/
def Counters.addAll (c : Counters) (increments : List (Counter × Nat)) : Counters :=
  increments.foldl (fun c i => c.add i.1 i.2) c

theorem Counters.addAll_concat (c : Counters) (increments : List (Counter × Nat))
    (i : Counter × Nat) : c.addAll (increments ++ [i]) = (c.addAll increments).add i.1 i.2 := by
  unfold addAll
  rw [List.foldl_append]
  rfl

namespace Ingestion

/-- What is answered to an action. -/
inductive Answer
  | taken (b : Bool)
  | drained (outcome : Except DrainError DrainReport)
  | cleaned (outcome : Except CleanupError (List Int))
  | nothing
deriving DecidableEq

def answer (s : Ingestion) : Action → Answer
  | .put o => .taken (s.put o).2
  | .drain now => .drained (s.drain now).2
  | .cleanup now => .cleaned (s.cleanup now).2
  | .enable _ | .fail _ => .nothing

/-- What is answered to the actions of a run, one after another. -/
def answers (s : Ingestion) (actions : List Action) : List Answer :=
  observe (fun s a => [s.answer a]) s actions

/-- Two writing sides that only differ in how their directories are ordered and in what their
counters, `c` and `d`, were before both were increased alike. -/
structure Parallel (c d : Counters) (s t : Ingestion) : Prop where
  queue : s.queue = t.queue
  writer : s.writer = t.writer
  log : s.log.Alike t.log
  counters : ∃ increments, s.counters = c.addAll increments ∧ t.counters = d.addAll increments

namespace Parallel

variable {c d : Counters} {s t : Ingestion}

section Parts

theorem count (h : Parallel c d s t) (counter : Counter) (n : Nat) :
    Parallel c d (s.count counter n) (t.count counter n) := by
  obtain ⟨increments, hs, ht⟩ := h.counters
  refine ⟨h.queue, h.writer, h.log, increments ++ [(counter, n)], ?_, ?_⟩
  · rw [Counters.addAll_concat, ← hs]
    rfl
  · rw [Counters.addAll_concat, ← ht]
    rfl

theorem mapWriter (h : Parallel c d s t) (f : Writer → Writer) :
    Parallel c d { s with writer := f s.writer } { t with writer := f t.writer } :=
  ⟨h.queue, congrArg f h.writer, h.log, h.counters⟩

theorem mapOpenKeys (h : Parallel c d s t) (f : KeySet → KeySet) :
    Parallel c d (s.mapOpenKeys f) (t.mapOpenKeys f) :=
  h.mapWriter fun w => { w with openKeys := f w.openKeys }

theorem withLog {log log' : EventLog} (h : Parallel c d s t) (hlog : log.Alike log') :
    Parallel c d { s with log } { t with log := log' } :=
  ⟨h.queue, h.writer, hlog, h.counters⟩

theorem drainQueue (h : Parallel c d s t) :
    Parallel c d { s with queue := s.queue.drain.2 } { t with queue := t.queue.drain.2 } :=
  ⟨congrArg (fun q => q.drain.2) h.queue, h.writer, h.log, h.counters⟩

end Parts

section Steps

theorem put (h : Parallel c d s t) (o : Offer) :
    Parallel c d (s.put o).1 (t.put o).1 ∧ (s.put o).2 = (t.put o).2 := by
  unfold Ingestion.put EventQueue.put
  rw [h.queue]
  cases o.event? with
  | none => exact ⟨⟨rfl, h.writer, h.log, (h.count .malformedEvents 1).counters⟩, rfl⟩
  | some e =>
    dsimp only
    cases t.queue.push? e with
    | none => exact ⟨⟨rfl, h.writer, h.log, (h.count .queueOverflow 1).counters⟩, rfl⟩
    | some q => exact ⟨⟨rfl, h.writer, h.log, h.counters⟩, rfl⟩

theorem appendBatch (h : Parallel c d s t) (key : Int) (events : List Event) :
    Parallel c d (s.appendBatch key events).1 (t.appendBatch key events).1 ∧
      (s.appendBatch key events).2 = (t.appendBatch key events).2 := by
  unfold Ingestion.appendBatch
  by_cases hempty : events = []
  · rw [if_pos hempty, if_pos hempty]
    exact ⟨h, rfl⟩
  · rw [if_neg hempty, if_neg hempty]
    have hopen := h.mapOpenKeys (·.insert key)
    obtain ⟨hlog, houtcome⟩ := hopen.log.append key events
    have hafter := hopen.withLog hlog
    dsimp only
    rw [houtcome]
    cases ((t.mapOpenKeys (·.insert key)).log.append key events).2 with
    | ok _ => exact ⟨hafter.count .eventsWritten events.length, rfl⟩
    | error e =>
      dsimp only
      split
      · exact ⟨hafter.count .writeErrors 1, rfl⟩
      · exact ⟨hafter, rfl⟩

theorem sealOpen (h : Parallel c d s t) (key : Int) :
    Parallel c d (s.sealOpen key).1 (t.sealOpen key).1 ∧
      (s.sealOpen key).2 = (t.sealOpen key).2 := by
  have hseal := h.log.sealWindow key
  unfold Ingestion.sealOpen
  generalize s.log.sealWindow key = left at hseal ⊢
  generalize t.log.sealWindow key = right at hseal ⊢
  cases hseal with
  | error e =>
    cases e with
    | alreadySealed _ => exact ⟨(h.count .sealErrors 1).mapOpenKeys (·.erase key), rfl⟩
    | _ => exact ⟨h.count .sealErrors 1, rfl⟩
  | @ok p q hpq =>
    obtain ⟨log, renamed⟩ := p
    obtain ⟨log', _⟩ := q
    obtain ⟨hlog, rfl⟩ := hpq
    have hsealed := (h.withLog hlog).mapOpenKeys (·.erase key)
    cases renamed with
    | false => exact ⟨hsealed, rfl⟩
    | true => exact ⟨hsealed.count .windowsSealed 1, rfl⟩

theorem sealAll (h : Parallel c d s t) (keys : List Int) :
    Parallel c d (s.sealAll keys).1 (t.sealAll keys).1 ∧
      (s.sealAll keys).2 = (t.sealAll keys).2 := by
  induction keys generalizing s t with
  | nil => exact ⟨h, rfl⟩
  | cons key rest ih =>
    obtain ⟨hfirst, hrenamed⟩ := h.sealOpen key
    obtain ⟨hlater, hmore⟩ := ih hfirst
    rw [Ingestion.sealAll, Ingestion.sealAll]
    refine ⟨hlater, ?_⟩
    dsimp only
    rw [hrenamed, hmore]

theorem rotate (h : Parallel c d s t) (reference : Int) :
    Parallel c d (s.rotate reference).1 (t.rotate reference).1 ∧
      (s.rotate reference).2 = (t.rotate reference).2 := by
  unfold Ingestion.rotate
  rw [h.writer]
  by_cases hsame : t.writer.lastReference = none ∨ t.writer.lastReference = some reference
  · rw [if_pos hsame, if_pos hsame]
    exact ⟨h, rfl⟩
  · rw [if_neg hsame, if_neg hsame]
    exact h.sealAll _

theorem expire (h : Parallel c d s t) (keys : List Int) (horizon : Int) :
    Parallel c d (s.expire keys horizon).1 (t.expire keys horizon).1 ∧
      (s.expire keys horizon).2 = (t.expire keys horizon).2 := by
  obtain ⟨hlog, hkeys⟩ := h.log.delete keys
  obtain ⟨hdeleted, hfailed⟩ := Prod.ext_iff.mp hkeys
  have hcounted := ((h.withLog hlog).count .windowsDeleted (t.log.delete keys).2.1.length).count
    .deleteErrors (t.log.delete keys).2.2.length
  have hopen := hcounted.mapOpenKeys (·.filter fun k => k ∉ keys ∨ k ∈ (t.log.delete keys).2.2)
  have hreached := hopen.mapWriter fun w =>
    { w with horizon := some ((least? (t.log.delete keys).2.2).getD horizon) }
  unfold Ingestion.expire
  dsimp only
  rw [hdeleted, hfailed]
  exact ⟨hreached, rfl⟩

theorem cleanup (h : Parallel c d s t) (now : Int) :
    Parallel c d (s.cleanup now).1 (t.cleanup now).1 ∧ (s.cleanup now).2 = (t.cleanup now).2 := by
  unfold Ingestion.cleanup
  rw [h.writer]
  cases t.writer.horizon with
  | none => exact ⟨h, rfl⟩
  | some last =>
    dsimp only
    by_cases hearly : t.writer.retentionHorizon now - last ≤ t.writer.settings.cleanupPeriod
    · rw [if_pos hearly, if_pos hearly]
      exact ⟨h, rfl⟩
    · rw [if_neg hearly, if_neg hearly]
      cases CleanupError.ofCount? t.writer.settings.listLimit (t.writer.interval.countBetween
          (t.writer.interval.key last) (t.writer.retentionHorizon now)) with
      | some e => exact ⟨h, rfl⟩
      | none =>
        obtain ⟨hafter, hdeleted⟩ := h.expire (t.writer.interval.keysBetween
          (t.writer.interval.key last) (t.writer.retentionHorizon now))
          (t.writer.retentionHorizon now)
        exact ⟨hafter, congrArg Except.ok hdeleted⟩

end Steps

section Drain

variable (now : Int)

theorem drainedFor (h : Parallel c d s t) (key : Int) : s.drainedFor key = t.drainedFor key := by
  unfold Ingestion.drainedFor
  rw [h.queue, h.writer]

theorem begun (h : Parallel c d s t) : Parallel c d (s.begun now) (t.begun now) := by
  obtain ⟨q, log, w, cs⟩ := s
  obtain ⟨_, log', _, ds⟩ := t
  have hcounted := h.drainQueue
  obtain ⟨rfl, rfl, _, _⟩ := h
  exact (hcounted.count .staleEvents _).mapWriter fun w' =>
    { w' with horizon := some (w'.horizon.getD (w.reference now)) }

theorem rotated (h : Parallel c d s t) :
    Parallel c d (s.rotated now) (t.rotated now) ∧
      ((s.begun now).rotate (s.writer.reference now)).2 =
        ((t.begun now).rotate (t.writer.reference now)).2 := by
  unfold Ingestion.rotated
  rw [h.writer]
  exact (h.begun now).rotate _

theorem torn (h : Parallel c d s t) (key : Int) : s.Torn key ↔ t.Torn key := by
  unfold Torn
  rw [h.log.faults, h.log.strictNames, h.drainedFor]

theorem breaksOff (h : Parallel c d s t) : s.BreaksOff now ↔ t.BreaksOff now := by
  unfold BreaksOff
  rw [h.torn, h.torn, h.writer]

theorem upcoming (h : Parallel c d s t) : s.upcoming now = t.upcoming now := by
  unfold Ingestion.upcoming
  simp only [h.torn, h.drainedFor, h.writer]

theorem written (h : Parallel c d s t) (key : Int) (events : List Event) :
    s.written key events = t.written key events := by
  unfold Ingestion.written
  rw [(h.appendBatch key events).2]

theorem halfRouted (h : Parallel c d s t) :
    Parallel c d (s.halfRouted now) (t.halfRouted now) := by
  unfold Ingestion.halfRouted
  rw [h.writer, h.drainedFor]
  exact ((h.rotated now).1.appendBatch _ _).1

theorem routed (h : Parallel c d s t) : Parallel c d (s.routed now) (t.routed now) := by
  have happended : Parallel c d (s.appended now) (t.appended now) := by
    unfold Ingestion.appended
    rw [h.writer, h.upcoming]
    exact ((h.halfRouted now).appendBatch _ _).1
  unfold Ingestion.routed
  simp only [h.breaksOff, h.writer]
  split
  · exact happended
  · exact happended.mapWriter fun w => { w with lastReference := some (t.writer.reference now) }

theorem report (h : Parallel c d s t) : s.report now = t.report now := by
  funext deleted
  unfold Ingestion.report
  dsimp only
  rw [(h.rotated now).2, (h.rotated now).1.written, (h.halfRouted now).written, h.drainedFor,
    h.upcoming, h.queue, h.writer]

theorem drain (h : Parallel c d s t) :
    Parallel c d (s.drain now).1 (t.drain now).1 ∧ (s.drain now).2 = (t.drain now).2 := by
  by_cases hon : t.writer.enabled = true
  · have hon' : s.writer.enabled = true := by
      rw [h.writer]
      exact hon
    by_cases hbreaks : t.BreaksOff now
    · rw [drain_of_breaksOff now hon hbreaks,
        drain_of_breaksOff now hon' ((h.breaksOff now).mpr hbreaks)]
      exact ⟨h.routed now, rfl⟩
    · obtain ⟨hafter, houtcome⟩ := (h.routed now).cleanup now
      rw [drain_of_enabled now hon hbreaks,
        drain_of_enabled now hon' (mt (h.breaksOff now).mp hbreaks), houtcome, h.report now]
      exact ⟨hafter, rfl⟩
  · rw [drain_eq, drain_eq, h.writer, if_neg hon, if_neg hon, h.queue]
    have hcounted := h.drainQueue.count .eventsDiscarded t.queue.events.length
    rw [h.queue, h.writer] at hcounted
    exact ⟨hcounted, rfl⟩

end Drain

section Runs

theorem act (h : Parallel c d s t) (a : Action) :
    Parallel c d (s.act a) (t.act a) ∧ s.answer a = t.answer a := by
  cases a with
  | put o =>
    obtain ⟨hafter, htaken⟩ := h.put o
    exact ⟨hafter, congrArg Answer.taken htaken⟩
  | drain now =>
    obtain ⟨hafter, houtcome⟩ := h.drain now
    exact ⟨hafter, congrArg Answer.drained houtcome⟩
  | cleanup now =>
    obtain ⟨hafter, houtcome⟩ := h.cleanup now
    exact ⟨hafter, congrArg Answer.cleaned houtcome⟩
  | enable on => exact ⟨h.mapWriter fun w => { w with enabled := on }, rfl⟩
  | fail faults => exact ⟨h.withLog ⟨rfl, h.log.strictNames, h.log.directory⟩, rfl⟩

/-- Writing sides that cannot be told apart stay so throughout a run. -/
theorem perform (h : Parallel c d s t) (actions : List Action) :
    Parallel c d (s.perform actions) (t.perform actions) ∧
      s.answers actions = t.answers actions := by
  induction actions generalizing s t with
  | nil => exact ⟨h, rfl⟩
  | cons a rest ih =>
    obtain ⟨hnext, hanswer⟩ := h.act a
    obtain ⟨hlast, hanswers⟩ := ih hnext
    refine ⟨hlast, ?_⟩
    change [s.answer a] ++ (s.act a).answers rest = [t.answer a] ++ (t.act a).answers rest
    rw [hanswer, hanswers]

end Runs

end Parallel

/-- A directory that holds what another one holds beside window logs. -/
def OnlyOthers (d e : Directory) : Prop :=
  (∀ name, d.LogFile name → e.get? name = none) ∧
    ∀ name, ¬d.LogFile name → e.get? name = d.get? name

/-- A directory with the entries that remain when those with names of logs are left out, in any
order. -/
theorem onlyOthers_of_perm {log : EventLog} {e : Directory} (hnames : log.Canonical)
    (h : e.entries.Perm (log.directory.entries.filter fun b =>
      ¬(b.2.isFile = true ∧ LogName.ofString? b.1 ≠ none))) : OnlyOthers log.directory e := by
  have hmem (name : String) (entry : Entry) : e.get? name = some entry ↔
      log.directory.get? name = some entry ∧ ¬log.directory.LogFile name := by
    rw [← KeyedList.mem_entries_iff, ← KeyedList.mem_entries_iff, h.mem_iff, List.mem_filter,
      decide_eq_true_eq, hnames.logFile_iff]
    apply and_congr_right
    intro hentry
    rw [Directory.fileAt, KeyedList.mem_entries_iff.mp hentry, Option.any_some]
  refine ⟨?_, ?_⟩
  · intro name hname
    apply Option.eq_none_iff_forall_ne_some.mpr
    intro entry hentry
    exact ((hmem name entry).mp hentry).2 hname
  · intro name hname
    apply Option.ext
    intro entry
    rw [hmem]
    exact and_iff_left hname

/-- Starting with a wipe that succeeds leaves no window log and all else as it was, and from then on
whatever is done has the same outcome, leaves the same files, windows that count as open and horizon
and increases the counters by the same as with a new writer that has the same settings and queue and
a directory with only the other entries. -/
theorem restart_forgets (s : Ingestion) (hnames : s.log.Canonical) {n : Nat}
    (hwipe : s.log.wipe.2 = .ok n) :
    ∃ t, s.start = .ok t ∧ (∀ name, ¬t.log.directory.LogFile name) ∧
      (∀ name, ¬s.log.directory.LogFile name →
        t.log.directory.get? name = s.log.directory.get? name) ∧
      ∀ (d : Directory) (counters : Counters), OnlyOthers s.log.directory d →
        let fresh : Ingestion := ⟨s.queue, ⟨d, s.log.faults, s.log.strictNames⟩,
          .create s.writer.settings s.writer.enabled, counters⟩
        ∀ actions, t.answers actions = fresh.answers actions ∧
          (∀ name, (t.perform actions).log.directory.get? name =
            (fresh.perform actions).log.directory.get? name) ∧
          (t.perform actions).writer = (fresh.perform actions).writer ∧
          (t.perform actions).queue = (fresh.perform actions).queue ∧
          ∃ increments, (t.perform actions).counters = s.counters.addAll increments ∧
            (fresh.perform actions).counters = counters.addAll increments := by
  let t : Ingestion := { s with
    log := s.log.wipe.1,
    writer := { s.writer with lastReference := none, horizon := none, openKeys := ∅ } }
  have hstart : s.start = .ok t := by
    unfold start
    dsimp only
    rw [hwipe]
  have hgone := hnames.gone_of_wipe hwipe
  have hothers : ∀ name, ¬s.log.directory.LogFile name →
      t.log.directory.get? name = s.log.directory.get? name := fun name => s.log.wipe_spares
  refine ⟨t, hstart, hgone, hothers, ?_⟩
  intro d counters hd fresh actions
  -- Everything but the order of the directory and the counters is the same from the start.
  have halike : t.log.Alike fresh.log := by
    refine ⟨s.log.faults_wipe, s.log.strictNames_wipe, ?_⟩
    · intro name
      by_cases hname : s.log.directory.LogFile name
      · exact (hnames.get?_wipe hwipe hname).trans (hd.1 name hname).symm
      · exact (hothers name hname).trans (hd.2 name hname).symm
  have hparallel : Parallel s.counters counters t fresh := ⟨rfl, rfl, halike, [], rfl, rfl⟩
  obtain ⟨hafter, hanswers⟩ := hparallel.perform actions
  exact ⟨hanswers, hafter.log.directory, hafter.writer, hafter.queue, hafter.counters⟩

/-- A session in a directory with two other entries, which leaves a sealed log and an open one. -/
def secondSession : Ingestion :=
  { tenMillis with
    log := ⟨KeyedList.ofList [("notes", .file []), ("7.tmp", .folder)], .none, false⟩
    }.perform [.put (.event (startAt 5)), .drain 15, .put (.event (startAt 15)), .drain 25]

/-- The next drain of a session seals its open log and deletes the one before, but not after a new
start. -/
theorem restarted_drain_seals_nothing :
    let others : Directory := KeyedList.ofList [("7.tmp", .folder), ("notes", .file [])]
    let fresh : Ingestion :=
      ⟨secondSession.queue, ⟨others, secondSession.log.faults, secondSession.log.strictNames⟩,
        .create secondSession.writer.settings secondSession.writer.enabled, .zero⟩
    secondSession.log.Canonical ∧ secondSession.log.wipe.2 = .ok 2 ∧
      OnlyOthers secondSession.log.directory others ∧
      secondSession.answers [.drain 35] = [.drained (.ok ⟨20, 0, 0, 0, 0, [10], [0]⟩)] ∧
      ∃ t, secondSession.start = .ok t ∧ t.answers [.drain 35] = fresh.answers [.drain 35] ∧
        t.answers [.drain 35] = [.drained (.ok ⟨20, 0, 0, 0, 0, [], []⟩)] := by
  intro others fresh
  have hnames : secondSession.log.Canonical := by
    apply EventLog.canonical_of_entries 20
    decide +kernel
  have hwipe : secondSession.log.wipe.2 = .ok 2 := by decide +kernel
  have hothers : OnlyOthers secondSession.log.directory others := by
    apply onlyOthers_of_perm hnames
    decide +kernel
  obtain ⟨t, hstart, _, _, hsame⟩ := restart_forgets secondSession hnames hwipe
  obtain ⟨hanswers, _⟩ := hsame others .zero hothers [.drain 35]
  refine ⟨hnames, hwipe, hothers, by decide +kernel, t, hstart, hanswers, ?_⟩
  rw [hanswers]
  decide +kernel

end Ingestion

end RequestWindows
