import RequestWindows.Proofs.Writer.Accounts

namespace RequestWindows

namespace Ingestion

open EventLog (lineCount)

/-- The events and records that are offered to the queue. -/
def puts (actions : List Action) : List Offer :=
  actions.filterMap fun
    | .put o => some o
    | _ => none

/-- The error that something ends with, if it does. -/
def refusal {ε α : Type} : Except ε α → List ε
  | .ok _ => []
  | .error e => [e]

/-- Why an action reports nothing, if it does not. -/
def refusals (s : Ingestion) : Action → List DrainError
  | .drain now => refusal (s.drain now).2
  | .cleanup now => refusal ((s.cleanup now).2.mapError .cleanup)
  | .put _ | .enable _ | .fail _ => []

/-- How many events a drain reports as drained, if it reports anything. -/
def reportedDrained (s : Ingestion) : Action → List Nat
  | .drain now =>
    match (s.drain now).2 with
    | .ok r => [r.drained]
    | .error _ => []
  | .put _ | .cleanup _ | .enable _ | .fail _ => []

/-- What an action has done without a report of it. -/
def unreported {α : Type} (f : Ingestion → Action → List α) (s : Ingestion) (a : Action) : List α :=
  if s.refusals a = [] then [] else f s a

section Reports

variable {α : Type} {f : Ingestion → Action → List α} {s : Ingestion} {now : Int}

theorem refusal_ne_nil_iff {outcome : Except CleanupError α} :
    refusal (outcome.mapError DrainError.cleanup) ≠ [] ↔ ∃ e, outcome = .error e := by
  cases outcome <;> simp [refusal, Except.mapError]

theorem refusal_map {β : Type} (outcome : Except DrainError α) (g : α → β) :
    refusal (outcome.map g) = refusal outcome := by
  cases outcome <;> rfl

/-- An action reports nothing when it breaks off and when the cleanup it comes to is refused. -/
theorem refusals_ne_nil_iff (a : Action) :
    s.refusals a ≠ [] ↔ s.Aborts a ∨
      ∃ t now, s.cleaning? a = some (t, now) ∧ ∃ e, (t.cleanup now).2 = .error e := by
  cases a with
  | drain now =>
    rw [refusals]
    by_cases hon : s.writer.enabled = true
    · by_cases hbreaks : s.BreaksOff now
      · have haborts : s.Aborts (.drain now) := ⟨hon, hbreaks⟩
        rw [drain_of_breaksOff now hon hbreaks]
        simp [refusal, haborts]
      · have haborts : ¬s.Aborts (.drain now) := fun h => hbreaks h.2
        rw [drain_of_enabled now hon hbreaks, refusal_map, refusal_ne_nil_iff,
          cleaning?_of_not_aborts haborts, beforeCleanup?, if_pos hon]
        simp [haborts]
    · have haborts : ¬s.Aborts (.drain now) := fun h => hon h.1
      rw [drain_eq, if_neg hon, cleaning?_of_not_aborts haborts, beforeCleanup?, if_neg hon]
      simp [refusal, haborts]
  | cleanup now =>
    have haborts : ¬s.Aborts (.cleanup now) := id
    rw [refusals, refusal_ne_nil_iff, cleaning?_of_not_aborts haborts, beforeCleanup?]
    simp [haborts]
  | _ => simp [refusals, cleaning?, beforeCleanup?, Aborts]

theorem unreported_of_ok {r : DrainReport} (h : (s.drain now).2 = .ok r) :
    s.unreported f (.drain now) = [] := by
  rw [unreported, refusals, h]
  rfl

theorem unreported_of_error {e : DrainError} (h : (s.drain now).2 = .error e) :
    s.unreported f (.drain now) = f s (.drain now) := by
  rw [unreported, refusals, h]
  rfl

theorem unreported_of_nil {a : Action} (h : f s a = []) : s.unreported f a = [] := by
  rw [unreported, h, ite_self]

/-- A drain reports what it drains, if it reports anything. -/
theorem sum_reportedDrained (a : Action) :
    (s.reportedDrained a).sum + (s.unreported drained a).length = (s.drained a).length := by
  cases a with
  | drain now =>
    rw [reportedDrained]
    cases hd : (s.drain now).2 with
    | ok r =>
      rw [unreported_of_ok hd]
      exact (List.sum_singleton).trans (drained_of_report now hd)
    | error e =>
      rw [unreported_of_error hd]
      exact Nat.zero_add _
  | cleanup now =>
    rw [unreported_of_nil rfl]
    rfl
  | _ => rfl

theorem length_reportedSealed (a : Action) :
    (s.reportedSealed a).length + (s.unreported sealings a).length = (s.sealings a).length := by
  cases a with
  | drain now =>
    rw [reportedSealed]
    cases hd : (s.drain now).2 with
    | ok r =>
      rw [unreported_of_ok hd, sealings, drainSeals]
      by_cases hon : s.writer.enabled = true
      · rw [if_pos hon]
        have hsealed := congrArg DrainReport.sealed (report_of_enabled now hon hd).2.1
        exact congrArg List.length hsealed
      · rw [if_neg hon]
        exact congrArg List.length (report_of_not_enabled now hon hd).1
    | error e =>
      rw [unreported_of_error hd]
      exact Nat.zero_add _
  | cleanup now =>
    rw [unreported_of_nil rfl]
    rfl
  | _ => rfl

end Reports

section Refusals

variable {s : Ingestion} {past : List Int} {now : Int}

/-- What is not before the retention horizon of a time does not belong to a window before it. -/
theorem key_le_of_retentionHorizon_le {w : Writer} {t last : Int}
    (h : w.retentionHorizon t ≤ last) : w.retentionHorizon t ≤ w.interval.key last := by
  have haligned : w.interval.key (w.retentionHorizon t) = w.retentionHorizon t :=
    Interval.key_eq_self (w.interval.aligned_key _)
  rw [← haligned]
  exact w.interval.key_mono h

/-- The horizon does not lie behind that of all of some times. -/
def Reached (s : Ingestion) (past : List Int) : Prop :=
  ∀ h, s.writer.horizon = some h → ∃ t ∈ past, s.writer.retentionHorizon t ≤ h

theorem Reached.mono {more : List Int} {t : Ingestion} (h : s.Reached past)
    (hhorizon : t.writer.horizon = s.writer.horizon)
    (hsettings : t.writer.settings = s.writer.settings) : t.Reached (past ++ more) := by
  intro k hk
  obtain ⟨u, hu, hle⟩ := h k (hhorizon.symm.trans hk)
  refine ⟨u, List.mem_append_left _ hu, ?_⟩
  unfold Writer.retentionHorizon Writer.interval at hle ⊢
  rw [hsettings]
  exact hle

theorem Reached.routed (h : s.Reached past) (now : Int) :
    (s.routed now).Reached (past ++ [now]) := by
  obtain ⟨_, _, _, hsettings, _, hhorizon, _⟩ := s.onlyLogs_routed now
  cases hs : s.writer.horizon with
  | some last =>
    rw [hs] at hhorizon
    exact h.mono (hhorizon.trans hs.symm) hsettings
  | none =>
    -- The first drain takes its reference window as the horizon.
    intro k hk
    rw [hs] at hhorizon
    have hreference : s.writer.reference now = k := Option.some.inj (hhorizon.symm.trans hk)
    have hlt := retentionHorizon_lt_reference s.writer now
    refine ⟨now, List.mem_append_right _ (.head _), ?_⟩
    unfold Writer.retentionHorizon Writer.interval at hlt ⊢
    rw [hsettings]
    omega

/-- A cleanup moves the horizon to that of its time, or to a window whose deletion fails, which does
not lie behind the horizon before. -/
theorem Reached.cleanup (h : s.Reached past) (now : Int) :
    (s.cleanup now).1.Reached (past ++ [now]) := by
  have hcase := s.cleanup_cleanup now
  cases hc : s.cleanup now with
  | mk t outcome =>
    rw [hc] at hcase
    cases hcase with
    | unstarted _ => exact h.mono rfl rfl
    | early _ _ => exact h.mono rfl rfl
    | refused _ _ _ => exact h.mono rfl rfl
    | @due last hlast hmoved hfew =>
      intro k hk
      have hreached := Option.some.inj ((horizon_expire s _ _).symm.trans hk)
      rcases least?_getD_mem _ (s.writer.retentionHorizon now) with heq | hmem
      · refine ⟨now, List.mem_append_right _ (.head _), ?_⟩
        exact Int.le_of_eq (heq.symm.trans hreached)
      · rw [hreached] at hmem
        obtain ⟨⟨gone, hgone⟩, _⟩ := s.log.delete_deleted (s.writer.interval.keysBetween
          (s.writer.interval.key last) (s.writer.retentionHorizon now))
        obtain ⟨u, hu, hle⟩ := h last hlast
        have hfrom := key_le_of_retentionHorizon_le hle
        have hstart := Interval.start_le_of_mem_keysBetween (hgone.failed_mem k hmem)
        exact ⟨u, List.mem_append_left _ hu, Int.le_trans hfrom hstart⟩

theorem reached_act (h : s.Reached past) (a : Action) : (s.act a).Reached (past ++ times [a]) := by
  cases a with
  | put o => exact h.mono rfl rfl
  | enable on => exact h.mono rfl rfl
  | fail faults => exact h.mono rfl rfl
  | cleanup now => exact h.cleanup now
  | drain now =>
    change (s.drain now).1.Reached _
    by_cases hon : s.writer.enabled = true
    · have hrouted := h.routed now
      refine drain_cases (P := fun t => t.Reached (past ++ [now])) now hon (fun _ => hrouted) ?_
      intro _ k hk
      obtain ⟨u, hu, hle⟩ := hrouted.cleanup now k hk
      refine ⟨u, ?_, hle⟩
      simpa using hu
    · rw [drain_of_not_enabled now hon]
      exact h.mono rfl rfl

theorem reached_perform (hfresh : s.writer.horizon = none) (actions : List Action) :
    (s.perform actions).Reached (times actions) := by
  induction actions using List.reverseRecOn with
  | nil =>
    intro k hk
    cases hfresh.symm.trans hk
  | append_singleton earlier a ih =>
    rw [perform_concat, times_concat]
    exact reached_act ih a

/-- A cleanup is not refused when no time before lies very far back. -/
theorem not_refused_of_close (h : s.Reached past)
    (hclose : ∀ t ∈ past, now ≤ t + ((s.writer.listLimit : Int) - 1) * s.writer.interval.millis) :
    ¬∃ e, (s.cleanup now).2 = .error e := by
  rw [cleanup_refused_iff]
  rintro ⟨last, hlast, _, hmany⟩
  obtain ⟨t, ht, hle⟩ := h last hlast
  have hfrom := key_le_of_retentionHorizon_le hle
  have hnow := hclose t ht
  have hupper := s.writer.interval.key_le (now - s.writer.settings.retention)
  have hlower := s.writer.interval.lt_key_add (t - s.writer.settings.retention)
  have hspan : (s.writer.listLimit : Int) * s.writer.interval.millis ≤
      s.writer.retentionHorizon now - s.writer.interval.key last :=
    Interval.mul_le_of_le_countBetween s.writer.settings.listLimit.positive hmany
  unfold Writer.retentionHorizon at *
  rw [Int.sub_mul, Int.one_mul] at hnow
  omega

theorem reached_of_cleaning? {a : Action} {t : Ingestion} (h : s.Reached past)
    (hcleaning : s.cleaning? a = some (t, now)) :
    t.Reached (past ++ times [a]) ∧ now ∈ times [a] := by
  rcases cleaning?_cases hcleaning with ⟨rfl, _, rfl⟩ | ⟨rfl, rfl⟩
  · exact ⟨h.routed now, .head _⟩
  · exact ⟨h.mono rfl rfl, .head _⟩

/-- Every action of a run reports what it does if no drain breaks off and the times are not very far
apart. -/
theorem no_refusals (hfresh : s.writer.horizon = none) (actions : List Action)
    (hwhole : observe aborted s actions = [])
    (hclose : ∀ t ∈ times actions, ∀ now ∈ times actions,
      now ≤ t + ((s.writer.listLimit : Int) - 1) * s.writer.interval.millis) :
    observe refusals s actions = [] := by
  induction actions using List.reverseRecOn with
  | nil => rfl
  | append_singleton earlier a ih =>
    rw [times_concat] at hclose
    rw [observe_concat, List.append_eq_nil_iff] at hwhole
    have hearlier := ih hwhole.1 fun t ht now hnow =>
      hclose t (List.mem_append_left _ ht) now (List.mem_append_left _ hnow)
    rw [observe_concat, hearlier, List.nil_append]
    apply Classical.byContradiction
    intro hrefused
    have hcleanup := ((refusals_ne_nil_iff a).mp hrefused).resolve_left
      (aborted_eq_nil_iff.mp hwhole.2)
    obtain ⟨t, now, hcleaning, he⟩ := hcleanup
    obtain ⟨hreached, hnow⟩ := reached_of_cleaning? (reached_perform hfresh earlier) hcleaning
    refine not_refused_of_close hreached ?_ he
    intro u hu
    have hu' := hclose u hu now (List.mem_append_right _ hnow)
    unfold Writer.interval Writer.listLimit at hu' ⊢
    rw [settings_of_cleaning? hcleaning, settings_perform]
    exact hu'

end Refusals

section Runs

variable (s : Ingestion)

theorem capacity_act (a : Action) : (s.act a).queue.capacity = s.queue.capacity := by
  cases a with
  | put o =>
    change (s.put o).1.queue.capacity = _
    cases hp : s.put o with
    | mk t answer =>
      have hcase := s.put_offers o
      rw [hp] at hcase
      cases hcase with
      | malformed _ => rfl
      | overflow _ _ => rfl
      | taken _ hroom => exact EventQueue.capacity_of_push? hroom
  | drain now =>
    have hempty := congrArg EventQueue.capacity (s.queue_drain now)
    exact hempty
  | cleanup now => exact congrArg EventQueue.capacity (s.queue_cleanup now)
  | enable on => rfl
  | fail faults => rfl

theorem capacity_perform (actions : List Action) :
    (s.perform actions).queue.capacity = s.queue.capacity := by
  induction actions generalizing s with
  | nil => rfl
  | cons a rest ih => exact (ih (s.act a)).trans (s.capacity_act a)

/-- The queue is first in, first out, and it loses nothing. -/
theorem queue_perform (actions : List Action) :
    s.queue.events ++ s.accepted actions =
      observe drained s actions ++ (s.perform actions).queue.events := by
  induction actions generalizing s with
  | nil => exact List.append_nil _
  | cons a rest ih =>
    calc
      s.queue.events ++ s.accepted (a :: rest)
        = s.drained a ++ ((s.act a).queue.events ++ (s.act a).accepted rest) := by
          rw [accepted, observe, ← List.append_assoc, queue_act, List.append_assoc]
          rfl
      _ = observe drained s (a :: rest) ++ (s.perform (a :: rest)).queue.events := by
          rw [ih, observe, List.append_assoc]
          rfl

theorem length_put (a : Action) :
    (puts [a]).length = (s.taken a).length + (s.overflowing a).length + (s.malformed a).length := by
  cases a with
  | put o =>
    rw [taken, overflowing, malformed]
    cases hp : s.put o with
    | mk t answer =>
      have hcase := s.put_offers o
      rw [hp] at hcase
      cases hcase with
      | malformed he =>
        rw [he]
        rfl
      | overflow he _ =>
        rw [he]
        rfl
      | taken he _ =>
        rw [he]
        rfl
  | _ => rfl

/-- What is offered to the queue is accepted, or it finds no room, or it is no event. -/
theorem length_puts (actions : List Action) :
    (puts actions).length = (s.accepted actions).length + (observe overflowing s actions).length +
      (observe malformed s actions).length := by
  induction actions generalizing s with
  | nil => rfl
  | cons a rest ih =>
    have hsplit : puts (a :: rest) = puts [a] ++ puts rest :=
      List.filterMap_append (l := [a])
    have hfirst := s.length_put a
    have hrest := ih (s.act a)
    rw [accepted] at hrest ⊢
    simp only [hsplit, observe, List.length_append]
    omega

theorem length_drained_perform (actions : List Action) :
    (observe drained s actions).length = (observe (batches .written) s actions).flatten.length +
      (observe stale s actions).length + (observe discarded s actions).length +
      (observe (batches .lost) s actions).flatten.length +
      ((observe (batches .abandoned) s actions).flatten.length +
        (observe untried s actions).length) := by
  induction actions generalizing s with
  | nil => rfl
  | cons a rest ih =>
    have hfirst := s.length_drained a
    have hrest := ih (s.act a)
    simp only [observe, List.length_append, List.flatten_append]
    omega

theorem length_written_le_added (actions : List Action) :
    (observe (batches .written) s actions).flatten.length ≤
      lineCount (observe addedToLogs s actions) := by
  induction actions generalizing s with
  | nil => exact Nat.le_refl _
  | cons a rest ih =>
    have hfirst : (s.batches .written a).flatten.length ≤ lineCount (s.addedToLogs a) := by
      cases a with
      | drain now =>
        by_cases hon : s.writer.enabled = true
        · rw [batches, addedToLogs, ofDrain_of_enabled hon, ofDrain_of_enabled hon,
            List.flatten_append, List.length_append, EventLog.lineCount_append]
          exact Nat.add_le_add length_written_le length_written_le
        · rw [batches, ofDrain_of_not_enabled hon]
          exact Nat.zero_le _
      | _ => exact Nat.le_refl _
    have hrest := ih (s.act a)
    simp only [observe, List.flatten_append, List.length_append, EventLog.lineCount_append]
    omega

/-- Unless an append breaks off half way, the logs get the lines of the written batches. -/
theorem addedToLogs_eq (actions : List Action) (hwhole : s.AllOrNothing actions) :
    observe addedToLogs s actions =
      EventLog.linesOf (observe (batches .written) s actions).flatten := by
  induction actions generalizing s with
  | nil => rfl
  | cons a rest ih =>
    have hfirst : s.addedToLogs a = EventLog.linesOf (s.batches .written a).flatten := by
      cases a with
      | drain now =>
        by_cases hon : s.writer.enabled = true
        · obtain ⟨h₁, h₂, _⟩ := s.onlyLogs_appended now
          have hcurrent : (s.rotated now).log.faults.partials = [] := by
            rw [h₁.faults]
            exact hwhole.1
          have hnext : (s.halfRouted now).log.faults.partials = [] := by
            rw [(h₁.trans h₂).faults]
            exact hwhole.1
          rw [batches, addedToLogs, ofDrain_of_enabled hon, ofDrain_of_enabled hon,
            List.flatten_append, EventLog.linesOf_append]
          exact congrArg₂ _ (addedBytes_of_whole hcurrent) (addedBytes_of_whole hnext)
        · rw [batches, addedToLogs, ofDrain_of_not_enabled hon, ofDrain_of_not_enabled hon]
          rfl
      | _ => rfl
    rw [observe, observe, List.flatten_append, EventLog.linesOf_append, hfirst, ih _ hwhole.act]

variable {s}

theorem sum_reportedDrained_perform (actions : List Action) :
    (observe reportedDrained s actions).sum + (observe (unreported drained) s actions).length =
      (observe drained s actions).length := by
  induction actions generalizing s with
  | nil => rfl
  | cons a rest ih =>
    have hfirst := sum_reportedDrained (s := s) a
    have hrest := ih (s := s.act a)
    simp only [observe, List.length_append, List.sum_append]
    omega

theorem length_reportedSealed_perform (actions : List Action) :
    (observe reportedSealed s actions).length + (observe (unreported sealings) s actions).length =
      (observe sealings s actions).length := by
  induction actions generalizing s with
  | nil => rfl
  | cons a rest ih =>
    have hfirst := length_reportedSealed (s := s) a
    have hrest := ih (s := s.act a)
    simp only [observe, List.length_append]
    omega

theorem kept_sublist_drained (s : Ingestion) (a : Action) : (s.kept a).Sublist (s.drained a) := by
  cases a with
  | drain now =>
    rw [kept]
    split
    · exact List.filter_sublist
    · exact List.nil_sublist _
  | _ => exact List.Sublist.refl _

/-- No drain breaks off while all accepted events can be written. -/
theorem aborted_of_writable {actions : List Action} (hqueue : s.queue.events = [])
    (h : ∀ e ∈ s.accepted actions, e.isWritable s.log.strictNames = true) :
    observe aborted s actions = [] := by
  have hqueued := s.queue_perform actions
  rw [hqueue, List.nil_append] at hqueued
  refine aborted_eq_nil actions fun e he => h e ?_
  rw [hqueued]
  exact List.mem_append_left _ ((observe_sublist s kept_sublist_drained actions).subset he)

theorem abandoned_of_no_refusals {actions : List Action} (h : observe refusals s actions = []) :
    observe (batches .abandoned) s actions = [] ∧ observe untried s actions = [] := by
  induction actions generalizing s with
  | nil => exact ⟨rfl, rfl⟩
  | cons a rest ih =>
    rw [observe, List.append_eq_nil_iff] at h
    obtain ⟨hbatches, huntried⟩ := ih h.2
    have haborts : ¬s.Aborts a := fun haborts =>
      (refusals_ne_nil_iff a).mpr (Or.inl haborts) h.1
    obtain ⟨hfirst, hsecond⟩ := abandoned_of_not_aborts haborts
    rw [observe, observe, hbatches, huntried, hfirst, hsecond]
    exact ⟨rfl, rfl⟩

theorem observe_unreported {α : Type} {f : Ingestion → Action → List α} {actions : List Action}
    (h : observe refusals s actions = []) : observe (unreported f) s actions = [] := by
  induction actions generalizing s with
  | nil => rfl
  | cons a rest ih =>
    rw [observe, List.append_eq_nil_iff] at h ⊢
    exact ⟨if_pos h.1, ih h.2⟩

end Runs

/-- The ledger of a run, whose last state shows how much has been counted. -/
structure Balanced (s : Ingestion) (actions : List Action) : Prop where
  /-- What the queue has accepted is what drains took out of it, in order, and what it holds. -/
  queued : s.accepted actions = observe drained s actions ++ (s.perform actions).queue.events
  bounded : ∀ earlier later, actions = earlier ++ later →
    (s.perform earlier).queue.events.length ≤ s.queue.capacity
  /-- What is offered to the queue is accepted or counted. -/
  offers : (puts actions).length = (s.accepted actions).length +
    (s.perform actions).counters.get .queueOverflow +
    (s.perform actions).counters.get .malformedEvents
  /-- What is drained, reported or not, is counted, lost with a batch that cannot be appended, or
  left by a drain that breaks off. -/
  drains : (observe reportedDrained s actions).sum +
      (observe (unreported drained) s actions).length =
    (s.perform actions).counters.get .eventsWritten +
      (s.perform actions).counters.get .staleEvents +
      (s.perform actions).counters.get .eventsDiscarded +
      (observe (batches .lost) s actions).flatten.length +
      ((observe (batches .abandoned) s actions).flatten.length +
        (observe untried s actions).length)
  losses : (s.perform actions).counters.get .writeErrors =
    (observe (batches .lost) s actions).length
  /-- Appends that break off half way add lines that do not count. -/
  uncounted : (s.perform actions).counters.get .eventsWritten ≤
    lineCount (observe addedToLogs s actions)
  /-- While appends that fail write nothing, as many events count as written as lines are appended
  to open logs, and the lines are those of the written batches. -/
  lines : s.AllOrNothing actions →
    (s.perform actions).counters.get .eventsWritten = lineCount (observe addedToLogs s actions) ∧
      observe addedToLogs s actions =
        EventLog.linesOf (observe (batches .written) s actions).flatten
  /-- As many windows count as sealed as are sealed, reported or not. -/
  seals : (s.perform actions).counters.get .windowsSealed =
    (observe reportedSealed s actions).length + (observe (unreported sealings) s actions).length
  deletions : (s.perform actions).counters.get .windowsDeleted =
    (observe reportedDeleted s actions).length
  /-- An action reports nothing exactly when it is a drain that breaks off, or when its cleanup is
  due and has too many windows to list. -/
  refused : ∀ earlier a later, actions = earlier ++ a :: later →
    ((s.perform earlier).refusals a ≠ [] ↔ (s.perform earlier).Aborts a ∨
      ∃ t now last, (s.perform earlier).cleaning? a = some (t, now) ∧
        t.writer.horizon = some last ∧
        s.writer.settings.cleanupPeriod < s.writer.retentionHorizon now - last ∧
        s.writer.listLimit ≤ s.writer.interval.countBetween (s.writer.interval.key last)
          (s.writer.retentionHorizon now))
  complete : observe refusals s actions = [] →
    observe (unreported drained) s actions = [] ∧ observe (unreported sealings) s actions = [] ∧
      observe (batches .abandoned) s actions = [] ∧ observe untried s actions = []
  /-- Every action reports what it does while all accepted events can be written and the times of
  the run are not very far apart. -/
  close : (∀ e ∈ s.accepted actions, e.isWritable s.log.strictNames = true) →
    (∀ t ∈ times actions, ∀ now ∈ times actions,
      now ≤ t + ((s.writer.listLimit : Int) - 1) * s.writer.interval.millis) →
    observe refusals s actions = []

/-- The ledger of every run of a new pipeline balances, whatever fails and whatever the clock
says. -/
theorem ledger_balances (s : Ingestion) (actions : List Action) (hqueue : s.queue.events = [])
    (hcounters : s.counters = .zero) (hhorizon : s.writer.horizon = none)
    (hexact : ∀ c, (s.perform actions).counters.get c < Nat.pow 2 53) : s.Balanced actions := by
  -- A counter is the sum of what the actions count, as it stays where its numbers are exact.
  have hcount (c : Counter) : (s.perform actions).counters.get c = s.tallies actions c := by
    have hgains := s.counts_perform actions c (hexact c)
    rw [hcounters] at hgains
    exact hgains.trans (Nat.zero_add _)
  have hqueued := s.queue_perform actions
  rw [hqueue, List.nil_append] at hqueued
  refine
    { queued := hqueued
      bounded := ?_
      offers := ?_
      drains := ?_
      losses := hcount .writeErrors
      uncounted := ?_
      lines := ?_
      seals := ?_
      deletions := hcount .windowsDeleted
      refused := ?_
      complete := fun h =>
        ⟨observe_unreported h, observe_unreported h, abandoned_of_no_refusals h⟩
      close := fun hwritable =>
        no_refusals hhorizon actions (aborted_of_writable hqueue hwritable) }
  · rintro earlier later -
    rw [← s.capacity_perform earlier]
    exact (s.perform earlier).queue.length_le
  · rw [hcount, hcount]
    exact s.length_puts actions
  · rw [hcount, hcount, hcount]
    exact (sum_reportedDrained_perform actions).trans (s.length_drained_perform actions)
  · rw [hcount]
    exact s.length_written_le_added actions
  · intro hwhole
    have hadded := s.addedToLogs_eq actions hwhole
    rw [hcount, hadded, EventLog.lineCount_linesOf]
    exact ⟨rfl, rfl⟩
  · rw [hcount]
    exact (length_reportedSealed_perform actions).symm
  -- The limits of a cleanup within the run are those of the settings it began with.
  · rintro earlier a later -
    rw [refusals_ne_nil_iff]
    refine or_congr_right ?_
    refine exists_congr fun t => exists_congr fun now => ?_
    rw [exists_and_left]
    refine and_congr_right fun hcleaning => ?_
    have hsettings : t.writer.settings = s.writer.settings :=
      (settings_of_cleaning? hcleaning).trans (s.settings_perform earlier)
    have hiff := cleanup_refused_iff t now
    unfold Writer.retentionHorizon Writer.interval Writer.listLimit at hiff ⊢
    rw [hsettings] at hiff
    exact hiff

/-- A batch is lost, one is torn, a seal and a drain come too late, and the writer is off for a
while. -/
def eventfulRun : List Action :=
  [.put (.event (startAt 5)), .put (.record .null), .put (.event (startAt 12)),
    .fail { Faults.none with appends := [10] }, .drain 15, .fail Faults.none,
    .put (.event (startAt 13)), .put (.event (startAt 99)), .drain 25, .enable false,
    .put (.event (startAt 27)), .drain 26, .enable true, .put (.event (tornAt 33)),
    .put (.event (startAt 45)), .drain 45, .put (.event (startAt 31)), .drain 9223372036854775800]

theorem eventful_run_balances :
    tenMillis.queue.events = [] ∧ tenMillis.counters = .zero ∧ tenMillis.writer.horizon = none ∧
      (∀ c, (tenMillis.perform eventfulRun).counters.get c < Nat.pow 2 53) ∧
      observe reportedDrained tenMillis eventfulRun = [2, 2, 1] ∧
      (tenMillis.perform eventfulRun).counters.get .eventsWritten = 2 ∧
      (tenMillis.perform eventfulRun).counters.get .staleEvents = 2 ∧
      (tenMillis.perform eventfulRun).counters.get .eventsDiscarded = 1 ∧
      (observe (unreported drained) tenMillis eventfulRun).length = 3 ∧
      (observe (batches .lost) tenMillis eventfulRun).flatten.length = 1 ∧
      (observe (batches .abandoned) tenMillis eventfulRun).flatten.length = 1 ∧
      (observe untried tenMillis eventfulRun).length = 1 ∧
      tenMillis.Balanced eventfulRun := by
  have hexact : ∀ c ∈ Counter.all,
      (tenMillis.perform eventfulRun).counters.get c < Nat.pow 2 53 := by
    decide +kernel
  have hbalanced := ledger_balances tenMillis eventfulRun rfl rfl rfl
    fun c => hexact c (Counter.mem_all c)
  refine ⟨rfl, rfl, rfl, fun c => hexact c (Counter.mem_all c), ?_, ?_, ?_, ?_, ?_, ?_, ?_, ?_,
    hbalanced⟩
  all_goals decide +kernel

/-- A request starts with a torn text in a dimension. -/
def tornRun : List Action := [.put (.event (tornAt 5)), .drain 15]

/-- A drain can break off although nothing fails and all times are small, and no counter has what
it drained. -/
theorem torn_event_is_unaccounted :
    (¬∀ (s : Ingestion) (actions : List Action), s.queue.events = [] → s.counters = .zero →
      s.writer.horizon = none →
      (∀ c, (s.perform actions).counters.get c < Nat.pow 2 53) →
      (∀ t ∈ readings actions, t < Nat.pow 2 63) → observe refusals s actions = []) ∧
    observe drained tenMillis tornRun = [tornAt 5] ∧
      (tenMillis.perform tornRun).counters = .zero := by
  refine ⟨fun h => ?_, by decide +kernel, by decide +kernel⟩
  have hexact : ∀ c ∈ Counter.all,
      (tenMillis.perform tornRun).counters.get c < Nat.pow 2 53 := by
    decide +kernel
  have hnone := h tenMillis tornRun rfl rfl rfl (fun c => hexact c (Counter.mem_all c))
    (by decide +kernel)
  exact absurd hnone (by decide +kernel)

end Ingestion

end RequestWindows
