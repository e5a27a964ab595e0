import RequestWindows.Proofs.Counters
import RequestWindows.Proofs.Event.Line
import RequestWindows.Proofs.Writer.Timely

namespace RequestWindows

namespace EventLog

/-- The number of lines that some bytes end. -/
def lineCount (bytes : List UInt8) : Nat := bytes.count 10

@[simp] theorem lineCount_nil : lineCount [] = 0 := rfl

@[simp] theorem lineCount_append (l m : List UInt8) :
    lineCount (l ++ m) = lineCount l + lineCount m := List.count_append

/-- Events are written as one line each. -/
theorem lineCount_linesOf (events : List Event) : lineCount (linesOf events) = events.length := by
  induction events with
  | nil => rfl
  | cons e rest ih =>
    have hnone : e.text.count '\n' = 0 := by
      rw [List.count_eq_zero]
      intro hmem
      exact absurd (e.oneLine_text '\n' hmem) (by decide)
    have hone : lineCount (linesOf [e]) = 1 := by
      unfold lineCount linesOf
      rw [Text.count_encodeUtf8, List.flatMap_singleton, List.count_append, hnone]
      rfl
    change lineCount (linesOf ([e] ++ rest)) = _
    rw [linesOf_append, lineCount_append, hone, ih, List.length_cons, Nat.add_comm]

end EventLog

namespace Ingestion

open EventLog (lineCount)

/-- What a step adds to the counters, as far as they are exact. -/
def Counts (s t : Ingestion) (n : Counter → Nat) : Prop := s.counters.Gains t.counters n

theorem Counts.of_eq {s t : Ingestion} (h : t.counters = s.counters) : s.Counts t fun _ => 0 := by
  unfold Counts
  rw [h]
  exact Counters.Gains.refl _

/-- What becomes of a batch that is appended. -/
inductive Fate
  | written
  /-- The file system fails, and the batch counts as a write error. -/
  | lost
  /-- An event of the batch cannot be written, and the drain breaks off. -/
  | abandoned
deriving DecidableEq

def Fate.ofOutcome : Except LogError Unit → Fate
  | .ok () => .written
  | .error e => if e.isSystem then .lost else .abandoned

theorem Fate.ofOutcome_eq_written_iff {outcome : Except LogError Unit} :
    ofOutcome outcome = .written ↔ outcome = .ok () := by
  cases outcome with
  | ok _ => simp [ofOutcome]
  | error e => cases h : e.isSystem <;> simp [ofOutcome, h]

/-- A drain breaks off at a batch exactly for an event that cannot be written. -/
theorem abandoned_iff {log : EventLog} {key : Int} {events : List Event} :
    Fate.ofOutcome (log.append key events).2 = .abandoned ↔
      key ∉ log.faults.appends ∧ EventLog.Unwritable log.strictNames events := by
  have hcase := log.append_appends key events
  rw [← hcase.unencodable_iff]
  cases ha : log.append key events with
  | mk log' outcome =>
    rw [ha] at hcase
    cases hcase with
    | @failed e hsystem _ =>
      have hother : e ≠ .unencodable := by
        rintro rfl
        cases hsystem
      simp [Fate.ofOutcome, hsystem, hother]
    | _ => simp [Fate.ofOutcome, LogError.isSystem]

section Append

variable (s : Ingestion) (key : Int) (events : List Event)

/-- The batch, if there is one and this becomes of it. -/
def batch (fate : Fate) : List (List Event) :=
  if events ≠ [] ∧ .ofOutcome (s.log.append key events).2 = fate then [events] else []

/-- The bytes that appending a batch adds to the open log of its window. -/
def addedBytes : List UInt8 :=
  ((s.appendBatch key events).1.log.bytesOf key false).drop (s.log.bytesOf key false).length

theorem log_appendBatch : (s.appendBatch key events).1.log = (s.log.append key events).1 := by
  unfold appendBatch
  split
  · next hnil =>
    unfold EventLog.append
    rw [if_pos hnil]
    split <;> rfl
  · dsimp only [mapOpenKeys]
    split
    · rfl
    · split <;> rfl

variable {s key events}

theorem batch_of_ne {fate : Fate}
    (h : Fate.ofOutcome (s.log.append key events).2 ≠ fate) : s.batch key events fate = [] :=
  if_neg fun hboth => h hboth.2

theorem batch_of_nil (hnil : events = []) (fate : Fate) : s.batch key events fate = [] :=
  if_neg fun h => h.1 hnil

theorem batch_of_ne_nil (hne : events ≠ []) {fate : Fate}
    (hfate : Fate.ofOutcome (s.log.append key events).2 = fate) (other : Fate) :
    s.batch key events other = if fate = other then [events] else [] := by
  unfold batch
  rw [hfate]
  simp [hne]

theorem written_eq (h : (s.log.append key events).2 = .ok ()) :
    (s.batch key events .written).flatten = events := by
  by_cases hnil : events = []
  · rw [batch_of_nil hnil, hnil]
    rfl
  · have hfate : Fate.ofOutcome (s.log.append key events).2 = .written := by rw [h]; rfl
    rw [batch_of_ne_nil hnil hfate, if_pos rfl, List.flatten_singleton]

theorem addedBytes_of_ok (h : (s.log.append key events).2 = .ok ()) :
    s.addedBytes key events = EventLog.linesOf events := by
  have hcase := s.log.append_appends key events
  unfold addedBytes
  rw [log_appendBatch]
  cases ha : s.log.append key events with
  | mk log outcome =>
    rw [ha] at hcase h
    cases hcase with
    | nothing _ hnil =>
      rw [hnil]
      exact List.drop_length
    | written _ _ _ hadd => rw [EventLog.bytesOf_of_addBytes hadd, List.drop_left]
    | _ => cases h

/-- Unless it breaks off half way, a batch is added line by line or leaves nothing. -/
theorem addedBytes_of_whole (hwhole : s.log.faults.partials = []) :
    s.addedBytes key events = EventLog.linesOf (s.batch key events .written).flatten := by
  by_cases hok : (s.log.append key events).2 = .ok ()
  · rw [addedBytes_of_ok hok, written_eq hok]
  · rw [batch_of_ne (mt Fate.ofOutcome_eq_written_iff.mp hok)]
    have hcase := s.log.append_appends key events
    unfold addedBytes
    rw [log_appendBatch]
    cases ha : s.log.append key events with
    | mk log outcome =>
      rw [ha] at hcase hok
      cases hcase with
      | broken _ _ _ hpartial _ =>
        rw [hwhole] at hpartial
        cases hpartial
      | nothing _ _ => exact absurd rfl hok
      | written _ _ _ _ => exact absurd rfl hok
      | _ => exact List.drop_length

/-- An append that breaks off may add lines that do not count. -/
theorem length_written_le :
    (s.batch key events .written).flatten.length ≤ lineCount (s.addedBytes key events) := by
  by_cases hok : (s.log.append key events).2 = .ok ()
  · rw [addedBytes_of_ok hok, written_eq hok, EventLog.lineCount_linesOf]
  · rw [batch_of_ne (mt Fate.ofOutcome_eq_written_iff.mp hok)]
    exact Nat.zero_le _

variable (s key events)

/-- One thing becomes of a batch. -/
theorem length_batches :
    (s.batch key events .written).flatten.length + (s.batch key events .lost).flatten.length +
      (s.batch key events .abandoned).flatten.length = events.length := by
  by_cases hnil : events = []
  · simp only [batch_of_nil hnil]
    rw [hnil]
    rfl
  · simp only [batch_of_ne_nil hnil rfl]
    cases Fate.ofOutcome (s.log.append key events).2 <;> simp

/-- The events of a batch are counted as written, or the batch as a failure, unless the drain breaks
off at it. -/
theorem counts_appendBatch :
    s.Counts (s.appendBatch key events).1 fun
      | .eventsWritten => (s.batch key events .written).flatten.length
      | .writeErrors => (s.batch key events .lost).length
      | _ => 0 := by
  cases ht : s.appendBatch key events with
  | mk t outcome =>
    have hcase := s.appendBatch_appends key events
    rw [ht] at hcase
    cases hcase with
    | nothing hnil =>
      exact (Counts.of_eq rfl).congr fun c => by cases c <;> simp [batch_of_nil hnil]
    | lost hne ha hsystem =>
      have hfate : Fate.ofOutcome (s.log.append key events).2 = .lost := by
        rw [ha]
        exact if_pos hsystem
      refine (Counters.gains_add _ .writeErrors 1).congr fun c => ?_
      cases c <;> simp [batch_of_ne_nil hne hfate]
    | torn hfault hbad =>
      have hfate := abandoned_iff.mpr ⟨hfault, hbad⟩
      have hne : events ≠ [] := List.ne_nil_of_mem hbad.choose_spec.1
      exact (Counts.of_eq rfl).congr fun c => by cases c <;> simp [batch_of_ne_nil hne hfate]
    | written hne ha =>
      have hfate : Fate.ofOutcome (s.log.append key events).2 = .written := by rw [ha]; rfl
      refine (Counters.gains_add _ .eventsWritten _).congr fun c => ?_
      cases c <;> simp [batch_of_ne_nil hne hfate]

end Append

section Seal

/-- What comes of the seals that fail. -/
def failures (trials : List (Except LogError Bool)) : List (Except LogError Bool) :=
  trials.filter fun t => !t.isOk

theorem counts_sealOpen (s : Ingestion) (key : Int) :
    s.Counts (s.sealOpen key).1 fun
      | .windowsSealed => if (s.sealOpen key).2 then 1 else 0
      | .sealErrors => if (s.log.sealWindow key).isOk then 0 else 1
      | _ => 0 := by
  have hadd (c : Counter) : s.counters.Gains (s.counters.add c 1) fun d => if d = c then 1 else 0 :=
    Counters.gains_add s.counters c 1
  unfold sealOpen
  split
  · next h =>
    rw [h]
    exact (hadd .sealErrors).congr fun c => by cases c <;> rfl
  · next h =>
    rw [h]
    exact (hadd .sealErrors).congr fun c => by cases c <;> rfl
  · next log renamed h =>
    rw [h]
    cases renamed with
    | true =>
      exact (hadd .windowsSealed).congr fun c => by cases c <;> rfl
    | false =>
      exact (Counters.Gains.refl s.counters).congr fun c => by cases c <;> rfl

theorem counts_sealAll (s : Ingestion) (keys : List Int) :
    s.Counts (s.sealAll keys).1 fun
      | .windowsSealed => (s.sealAll keys).2.length
      | .sealErrors => (failures (s.trials keys)).length
      | _ => 0 := by
  induction keys generalizing s with
  | nil =>
    exact (Counts.of_eq rfl).congr fun c => by cases c <;> rfl
  | cons key rest ih =>
    refine ((s.counts_sealOpen key).trans (ih (s.sealOpen key).1)).congr ?_
    intro c
    cases c with
    | windowsSealed =>
      rw [sealAll]
      dsimp only
      split
      · rw [List.length_cons, Nat.add_comm]
      · exact Nat.zero_add _
    | sealErrors =>
      have htrial : ((s.log.sealWindow key).map Prod.snd).isOk = (s.log.sealWindow key).isOk := by
        cases s.log.sealWindow key <;> rfl
      dsimp only [failures]
      rw [trials, List.filter_cons, htrial]
      cases (s.log.sealWindow key).isOk with
      | true => exact Nat.zero_add _
      | false => exact Nat.add_comm _ _
    | _ => rfl

end Seal

section Cleanup

/-- A cleanup counts what it deletes and what it fails to delete; one that is refused counts
nothing. -/
theorem counts_cleanup (s : Ingestion) (now : Int) :
    s.Counts (s.cleanup now).1 fun
      | .windowsDeleted => (s.reportedDeleted (.cleanup now)).length
      | .deleteErrors => (s.deleteFailures now).length
      | _ => 0 := by
  have hcase := s.cleanup_cleanup now
  cases hc : s.cleanup now with
  | mk t outcome =>
    rw [hc] at hcase
    have hreported : s.reportedDeleted (.cleanup now) = outcome.toOption.getD [] := by
      rw [reportedDeleted, hc]
      cases outcome <;> rfl
    -- Only a cleanup that is due comes to delete anything.
    have hstays (hfailed : s.deleteFailures now = []) (hnone : outcome.toOption.getD [] = []) :
        s.Counts s fun
          | .windowsDeleted => (s.reportedDeleted (.cleanup now)).length
          | .deleteErrors => (s.deleteFailures now).length
          | _ => 0 := by
      rw [hreported, hfailed, hnone]
      exact (Counts.of_eq rfl).congr fun c => by cases c <;> rfl
    cases hcase with
    | unstarted h =>
      refine hstays ?_ rfl
      rw [deleteFailures, h]
    | early h hmoved =>
      refine hstays ?_ rfl
      rw [deleteFailures, h]
      exact if_pos hmoved
    | refused h hmoved hmany =>
      refine hstays ?_ rfl
      rw [deleteFailures, h]
      dsimp only
      rw [if_neg (Int.not_le.mpr hmoved), hmany]
      rfl
    | @due last h hmoved hfew =>
      rw [hreported, deleteFailures_of_due h hmoved hfew]
      let keys := s.writer.interval.keysBetween (s.writer.interval.key last)
        (s.writer.retentionHorizon now)
      have hdeleted := Counters.gains_add s.counters .windowsDeleted (s.log.delete keys).2.1.length
      refine (hdeleted.trans (Counters.gains_add _ .deleteErrors
        (s.log.delete keys).2.2.length)).congr ?_
      intro c
      cases c with
      | deleteErrors => exact Nat.zero_add _
      | _ => rfl

end Cleanup

section Actions

variable (s : Ingestion)

/-- The drained events that are thrown away because the writer is not enabled. -/
def discarded (s : Ingestion) : Action → List Event
  | .drain _ => if s.writer.enabled then [] else s.queue.events
  | .put _ | .cleanup _ | .enable _ | .fail _ => []

/-- What comes of an action if it is a drain that finds the writer enabled. -/
def ofDrain {α : Type} (f : Ingestion → Int → List α) (s : Ingestion) : Action → List α
  | .drain now => if s.writer.enabled then f s now else []
  | .put _ | .cleanup _ | .enable _ | .fail _ => []

/-- The drained events that belong to neither of the two windows that are written to. -/
def stale : Ingestion → Action → List Event :=
  ofDrain fun s now =>
    let reference := s.writer.reference now
    let next := reference + s.writer.interval.millis
    s.queue.events.filter fun e =>
      e.window s.writer.interval ≠ reference ∧ e.window s.writer.interval ≠ next

/-- The bytes that an action adds to open logs. -/
def addedToLogs : Ingestion → Action → List UInt8 :=
  ofDrain fun s now =>
    let reference := s.writer.reference now
    let next := reference + s.writer.interval.millis
    (s.rotated now).addedBytes reference (s.drainedFor reference) ++
      (s.halfRouted now).addedBytes next (s.upcoming now)

/-- The batches of drained events of which this becomes. -/
def batches (fate : Fate) : Ingestion → Action → List (List Event) :=
  ofDrain fun s now =>
    let reference := s.writer.reference now
    let next := reference + s.writer.interval.millis
    (s.rotated now).batch reference (s.drainedFor reference) fate ++
      (s.halfRouted now).batch next (s.upcoming now) fate

/-- The drained events of the next window, if the drain breaks off at those of its reference
window. -/
def untried : Ingestion → Action → List Event :=
  ofDrain fun s now =>
    let reference := s.writer.reference now
    if s.Torn reference then s.drainedFor (reference + s.writer.interval.millis) else []

/-- What is offered to the queue and is no event. -/
def malformed (_ : Ingestion) : Action → List Offer
  | .put o => if o.event?.isSome then [] else [o]
  | .drain _ | .cleanup _ | .enable _ | .fail _ => []

/-- The events that are offered to the queue when it is full. -/
def overflowing (s : Ingestion) : Action → List Event
  | .put o => if (s.put o).2 then [] else o.event?.toList
  | .drain _ | .cleanup _ | .enable _ | .fail _ => []

/-- What each counter counts in a run. -/
def tallies (s : Ingestion) (actions : List Action) : Counter → Nat
  | .eventsWritten => (observe (batches .written) s actions).flatten.length
  | .staleEvents => (observe stale s actions).length
  | .malformedEvents => (observe malformed s actions).length
  | .queueOverflow => (observe overflowing s actions).length
  | .writeErrors => (observe (batches .lost) s actions).length
  | .sealErrors => (failures (observe sealTrials s actions)).length
  | .deleteErrors => (observe failedDeletions s actions).length
  | .windowsSealed => (observe sealings s actions).length
  | .windowsDeleted => (observe reportedDeleted s actions).length
  | .eventsDiscarded => (observe discarded s actions).length

theorem tallies_cons (a : Action) (rest : List Action) (c : Counter) :
    s.tallies (a :: rest) c = s.tallies [a] c + (s.act a).tallies rest c := by
  cases c <;> simp [tallies, observe, failures]

@[simp] theorem observe_singleton {α : Type} (f : Ingestion → Action → List α) (a : Action) :
    observe f s [a] = f s a := List.append_nil _

/-- Each event belongs to one of two windows or to neither. -/
theorem length_of_windows (i : Interval) {k l : Int} (h : l ≠ k) (events : List Event) :
    (events.filter fun e => e.window i = k).length +
        (events.filter fun e => e.window i = l).length +
        (events.filter fun e => e.window i ≠ k ∧ e.window i ≠ l).length = events.length := by
  induction events with
  | nil => rfl
  | cons e rest ih =>
    by_cases hk : e.window i = k
    · simp [hk, h.symm] at ih ⊢
      omega
    · by_cases hl : e.window i = l
      · simp [hl, h] at ih ⊢
        omega
      · simp [hk, hl] at ih ⊢
        omega

section Drains

variable {α : Type} {f : Ingestion → Int → List α} {s} {now : Int}

theorem ofDrain_of_enabled (hon : s.writer.enabled = true) : ofDrain f s (.drain now) = f s now :=
  if_pos hon

theorem ofDrain_of_not_enabled (hoff : ¬s.writer.enabled = true) :
    ofDrain f s (.drain now) = [] := if_neg hoff

end Drains

/-- Each drained event is stale, thrown away, or in a batch that is written, lost or abandoned, or a
drain breaks off before it comes to it. -/
theorem length_drained (a : Action) :
    (s.drained a).length = (s.batches .written a).flatten.length + (s.stale a).length +
      (s.discarded a).length + (s.batches .lost a).flatten.length +
      ((s.batches .abandoned a).flatten.length + (s.untried a).length) := by
  cases a with
  | drain now =>
    unfold drained stale discarded batches untried
    by_cases hon : s.writer.enabled = true
    · have hpos := s.writer.interval.pos
      have hwindows := length_of_windows s.writer.interval
        (by omega : s.writer.reference now + s.writer.interval.millis ≠ s.writer.reference now)
        s.queue.events
      have hcurrent := (s.rotated now).length_batches (s.writer.reference now)
        (s.drainedFor (s.writer.reference now))
      have hnext := (s.halfRouted now).length_batches
        (s.writer.reference now + s.writer.interval.millis) (s.upcoming now)
      have hupcoming : (s.upcoming now).length +
          (if s.Torn (s.writer.reference now) then
            s.drainedFor (s.writer.reference now + s.writer.interval.millis) else []).length =
            (s.drainedFor (s.writer.reference now + s.writer.interval.millis)).length := by
        unfold upcoming
        split
        · exact Nat.zero_add _
        · rfl
      simp only [ofDrain_of_enabled hon, if_pos hon, List.flatten_append, List.length_append,
        List.length_nil]
      unfold drainedFor at *
      omega
    · simp only [ofDrain_of_not_enabled hon, if_neg hon, List.flatten_nil, List.length_nil,
        Nat.zero_add, Nat.add_zero]
  | _ => rfl

variable {s}

/-- Nothing is left undone by a drain that does not break off. -/
theorem abandoned_of_not_aborts {a : Action} (h : ¬s.Aborts a) :
    s.batches .abandoned a = [] ∧ s.untried a = [] := by
  cases a with
  | drain now =>
    by_cases hon : s.writer.enabled = true
    · have hwhole : ¬s.BreaksOff now := fun hbreaks => h ⟨hon, hbreaks⟩
      have hcurrent : ¬s.Torn (s.writer.reference now) := fun htorn => hwhole (Or.inl htorn)
      have hnext : ¬s.Torn (s.writer.reference now + s.writer.interval.millis) :=
        fun htorn => hwhole (Or.inr htorn)
      obtain ⟨h₁, h₂, _⟩ := s.onlyLogs_appended now
      rw [batches, untried, ofDrain_of_enabled hon, ofDrain_of_enabled hon]
      dsimp only
      rw [batch_of_ne, batch_of_ne, if_neg hcurrent]
      · exact ⟨rfl, rfl⟩
      · rw [ne_eq, abandoned_iff, (h₁.trans h₂).faults, (h₁.trans h₂).strictNames, upcoming,
          if_neg hcurrent]
        exact hnext
      · rw [ne_eq, abandoned_iff, h₁.faults, h₁.strictNames]
        exact hcurrent
    · rw [batches, untried, ofDrain_of_not_enabled hon, ofDrain_of_not_enabled hon]
      exact ⟨rfl, rfl⟩
  | _ => exact ⟨rfl, rfl⟩

/-- Up to its cleanup a drain counts what is stale, what it seals and fails to seal, and what it
writes and loses. -/
theorem counts_routed (now : Int) (hon : s.writer.enabled = true) :
    s.Counts (s.routed now) fun
      | .eventsWritten => (s.batches .written (.drain now)).flatten.length
      | .staleEvents => (s.stale (.drain now)).length
      | .writeErrors => (s.batches .lost (.drain now)).length
      | .sealErrors => (failures (s.sealTrials (.drain now))).length
      | .windowsSealed => (s.sealings (.drain now)).length
      | _ => 0 := by
  -- One stage after another: only the two appends share counters.
  have hbegun : s.Counts (s.begun now) fun c =>
      if c = .staleEvents then (s.stale (.drain now)).length else 0 := by
    rw [stale, ofDrain_of_enabled hon]
    exact Counters.gains_add s.counters .staleEvents _
  have hrotated := (s.begun now).counts_sealAll
    ((s.begun now).rotationKeys (s.writer.reference now))
  rw [← rotate_eq_sealAll] at hrotated
  have hcurrent := (s.rotated now).counts_appendBatch (s.writer.reference now)
    (s.drainedFor (s.writer.reference now))
  have hnext := (s.halfRouted now).counts_appendBatch
    (s.writer.reference now + s.writer.interval.millis) (s.upcoming now)
  have hall := ((hbegun.trans hrotated).trans hcurrent).trans hnext
  unfold Counts at hall ⊢
  rw [counters_routed]
  refine hall.congr fun c => ?_
  cases c with
  | eventsWritten => simp [batches, ofDrain_of_enabled hon]
  | writeErrors => simp [batches, ofDrain_of_enabled hon]
  | sealErrors => simp [sealTrials, drainTrials, hon]
  | windowsSealed => simp [sealings, drainSeals, hon]
  | _ => simp

/-- A drain that finds the writer enabled also counts what its cleanup deletes and fails to delete,
if it comes to that. -/
theorem counts_drain {now : Int} (hon : s.writer.enabled = true) :
    s.Counts (s.drain now).1 (s.tallies [.drain now]) := by
  have hrouted := counts_routed now hon
  by_cases hbreaks : s.BreaksOff now
  · have hdeleted : s.reportedDeleted (.drain now) = [] := by
      rw [reportedDeleted, drain_of_breaksOff now hon hbreaks]
    have hfailed : s.failedDeletions (.drain now) = [] := by
      rw [failedDeletions, cleaning?, if_pos ⟨hon, hbreaks⟩]
    rw [drain_of_breaksOff now hon hbreaks]
    refine hrouted.congr fun c => ?_
    cases c with
    | windowsDeleted => simp [tallies, hdeleted]
    | deleteErrors => simp [tallies, hfailed]
    | eventsDiscarded => simp [tallies, discarded, hon]
    | malformedEvents => rfl
    | queueOverflow => rfl
    | _ => simp [tallies]
  · have hcleanup := (s.routed now).counts_cleanup now
    have haborts : ¬s.Aborts (.drain now) := fun h => hbreaks h.2
    rw [drain_of_enabled now hon hbreaks]
    refine (hrouted.trans hcleanup).congr fun c => ?_
    cases c with
    | windowsDeleted => simp [tallies, reportedDeleted_drain hon hbreaks]
    | deleteErrors =>
      simp [tallies, failedDeletions, cleaning?_of_not_aborts haborts, beforeCleanup?, hon]
    | eventsDiscarded => simp [tallies, discarded, hon]
    | malformedEvents => rfl
    | queueOverflow => rfl
    | _ => simp [tallies]

/-- A drain that finds the writer disabled counts only what it throws away. -/
theorem counts_discard {now : Int} (hoff : ¬s.writer.enabled = true) :
    s.Counts (s.drain now).1 (s.tallies [.drain now]) := by
  have hdeleted : s.reportedDeleted (.drain now) = [] := by
    rw [reportedDeleted, drain_eq, if_neg hoff]
  rw [drain_of_not_enabled now hoff]
  refine (Counters.gains_add s.counters .eventsDiscarded s.queue.events.length).congr ?_
  intro c
  cases c with
  | eventsWritten => simp [tallies, batches, ofDrain_of_not_enabled hoff]
  | staleEvents => simp [tallies, stale, ofDrain_of_not_enabled hoff]
  | malformedEvents => rfl
  | queueOverflow => rfl
  | writeErrors => simp [tallies, batches, ofDrain_of_not_enabled hoff]
  | sealErrors => simp [tallies, sealTrials, drainTrials, hoff, failures]
  | deleteErrors => simp [tallies, failedDeletions, cleaning?, beforeCleanup?, hoff]
  | windowsSealed => simp [tallies, sealings, drainSeals, hoff]
  | windowsDeleted => simp [tallies, hdeleted]
  | eventsDiscarded => simp [tallies, discarded, hoff]

/-- An offer that is not taken is counted as malformed or as overflow. -/
theorem counts_put (o : Offer) : s.Counts (s.put o).1 (s.tallies [.put o]) := by
  cases hp : s.put o with
  | mk t answer =>
    have hcase := s.put_offers o
    rw [hp] at hcase
    have hoverflowing : s.overflowing (.put o) = if answer then [] else o.event?.toList := by
      rw [overflowing, hp]
    cases hcase with
    | malformed he =>
      refine (Counters.gains_add s.counters .malformedEvents 1).congr ?_
      intro c
      cases c with
      | malformedEvents => simp [tallies, malformed, he]
      | queueOverflow => simp [tallies, hoverflowing, he]
      | _ => rfl
    | overflow he _ =>
      refine (Counters.gains_add s.counters .queueOverflow 1).congr ?_
      intro c
      cases c with
      | malformedEvents => simp [tallies, malformed, he]
      | queueOverflow => simp [tallies, hoverflowing, he]
      | _ => rfl
    | taken he _ =>
      refine (Counts.of_eq rfl).congr ?_
      intro c
      cases c with
      | malformedEvents => simp [tallies, malformed, he]
      | queueOverflow => simp [tallies, hoverflowing]
      | _ => rfl

theorem counts_act (a : Action) : s.Counts (s.act a) (s.tallies [a]) := by
  cases a with
  | put o => exact counts_put o
  | drain now =>
    by_cases hon : s.writer.enabled = true
    · exact counts_drain hon
    · exact counts_discard hon
  | cleanup now =>
    refine (s.counts_cleanup now).congr ?_
    intro c
    cases c with
    | deleteErrors =>
      have haborts : ¬s.Aborts (.cleanup now) := id
      rw [tallies, observe_singleton, failedDeletions, cleaning?_of_not_aborts haborts]
      rfl
    | windowsDeleted => rw [tallies, observe_singleton]
    | _ => rfl
  | enable on =>
    exact (Counts.of_eq rfl).congr fun c => by cases c <;> rfl
  | fail faults =>
    exact (Counts.of_eq rfl).congr fun c => by cases c <;> rfl

variable (s)

theorem counts_perform (actions : List Action) :
    s.Counts (s.perform actions) (s.tallies actions) := by
  induction actions generalizing s with
  | nil =>
    exact (Counts.of_eq rfl).congr fun c => by cases c <;> rfl
  | cons a rest ih =>
    refine ((counts_act a).trans (ih (s.act a))).congr ?_
    intro c
    exact (s.tallies_cons a rest c).symm

end Actions

end Ingestion

end RequestWindows
