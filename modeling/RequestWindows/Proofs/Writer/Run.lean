import RequestWindows.Proofs.EventLog.Files
import RequestWindows.Writer.Drain

/-! Runs of the writing side. A drain is taken apart into its stages, and for each stage it is said
which logs it changes and how. -/
namespace RequestWindows

/-- What can be done with the writing side. -/
inductive Action
  | put (o : Offer)
  | drain (now : Int)
  | cleanup (now : Int)
  | enable (on : Bool)
  /-- Other failures than before are to come. -/
  | fail (faults : Faults)

namespace Ingestion

def act (s : Ingestion) : Action → Ingestion
  | .put o => (s.put o).1
  | .drain now => (s.drain now).1
  | .cleanup now => (s.cleanup now).1
  | .enable on => s.setEnabled on
  | .fail faults => { s with log := { s.log with faults } }

/-- The state after some actions. -/
def perform (s : Ingestion) (actions : List Action) : Ingestion := actions.foldl act s

/-- What is seen of each action of a run, one after another. -/
def observe {α : Type} (f : Ingestion → Action → List α) : Ingestion → List Action → List α
  | _, [] => []
  | s, a :: rest => f s a ++ observe f (s.act a) rest

theorem ten_pos : (0 : Int) < 10 := by decide

theorem two_windows_le : 2 * (⟨10, ten_pos⟩ : Interval).millis ≤ 20 := by decide

theorem request_ne_empty : "a" ≠ "" := by decide

/-- A writing side that nothing has been done with yet, with windows of ten milliseconds. -/
def tenMillis : Ingestion :=
  ⟨.empty 8, .empty, .create ⟨⟨10, ten_pos⟩, 1000, 0, 20, 0, .standard, two_windows_le⟩ true, .zero⟩

/-- The start of a request at the given time. -/
def startAt (time : Nat) : Event := ⟨time, "a", .start, ∅, request_ne_empty⟩

theorem isSurrogate_firstHigh : 0xD800 ≤ 0xD800 ∧ 0xD800 ≤ 0xDFFF := by decide

/-- The start of a request with a torn text in a dimension that no column is for. -/
def tornAt (time : Nat) : Event :=
  ⟨time, "a", .start, .ofList [("color", .text (.torn "" ⟨0xD800, isSurrogate_firstHigh⟩ ""))],
    request_ne_empty⟩

section Runs

variable {α : Type} (f : Ingestion → Action → List α) (s : Ingestion) (actions : List Action)
  (a : Action)

theorem perform_concat : s.perform (actions ++ [a]) = (s.perform actions).act a := by
  unfold perform
  rw [List.foldl_append]
  rfl

theorem observe_append (more : List Action) :
    observe f s (actions ++ more) = observe f s actions ++ observe f (s.perform actions) more := by
  induction actions generalizing s with
  | nil => rfl
  | cons b rest ih =>
    rw [List.cons_append, observe, observe, ih, List.append_assoc]
    rfl

theorem observe_concat :
    observe f s (actions ++ [a]) = observe f s actions ++ f (s.perform actions) a := by
  rw [observe_append, observe, observe, List.append_nil]

end Runs

/-- The event that an action adds to the queue. -/
def taken (s : Ingestion) : Action → List Event
  | .put o => if (s.put o).2 then o.event?.toList else []
  | _ => []

/-- The events that an action takes out of the queue. -/
def drained (s : Ingestion) : Action → List Event
  | .drain _ => s.queue.events
  | .put _ | .cleanup _ | .enable _ | .fail _ => []

/-- The events that the queue accepts during a run, in the order in which it accepts them. -/
def accepted (s : Ingestion) (actions : List Action) : List Event := observe taken s actions

/-- The times of the drains among some actions. -/
def drainTimes (actions : List Action) : List Int :=
  actions.filterMap fun
    | .drain now => some now
    | _ => none

/-- The times of the drains and cleanups among some actions. -/
def times (actions : List Action) : List Int :=
  actions.filterMap fun
    | .drain now | .cleanup now => some now
    | _ => none

section Stages

variable (s : Ingestion) (now : Int)

/-- A drain up to its rotation: the queue is emptied, and the first drain starts the horizon. -/
def begun : Ingestion :=
  let reference := s.writer.reference now
  let next := reference + s.writer.interval.millis
  let stale := s.queue.events.filter fun e =>
    e.window s.writer.interval ≠ reference ∧ e.window s.writer.interval ≠ next
  let s := { s with queue := s.queue.drain.2 }.count .staleEvents stale.length
  { s with writer := { s.writer with horizon := some (s.writer.horizon.getD reference) } }

/-- The drained events of the window with the given key. -/
def drainedFor (key : Int) : List Event :=
  s.queue.events.filter fun e => e.window s.writer.interval = key

/-- A drain after its rotation. -/
def rotated : Ingestion := ((s.begun now).rotate (s.writer.reference now)).1

/-- A drain after the events of its reference window are written. -/
def halfRouted : Ingestion :=
  ((s.rotated now).appendBatch (s.writer.reference now) (s.drainedFor (s.writer.reference now))).1

/-- Whether appending the drained events of a window breaks a drain off: one of them cannot be
written, and the append is not made to fail before that is found out. -/
def Torn (key : Int) : Prop :=
  key ∉ s.log.faults.appends ∧ EventLog.Unwritable s.log.strictNames (s.drainedFor key)

instance (key : Int) : Decidable (s.Torn key) := inferInstanceAs (Decidable (_ ∧ _))

/-- Whether a drain that finds the writer enabled breaks off before its cleanup. -/
def BreaksOff : Prop :=
  s.Torn (s.writer.reference now) ∨ s.Torn (s.writer.reference now + s.writer.interval.millis)

instance : Decidable (s.BreaksOff now) := inferInstanceAs (Decidable (_ ∨ _))

/-- Whether an action is a drain that breaks off before its cleanup. -/
def Aborts : Action → Prop
  | .drain now => s.writer.enabled = true ∧ s.BreaksOff now
  | .put _ | .cleanup _ | .enable _ | .fail _ => False

instance (a : Action) : Decidable (s.Aborts a) :=
  match a with
  | .drain _ => inferInstanceAs (Decidable (_ ∧ _))
  | .put _ | .cleanup _ | .enable _ | .fail _ => .isFalse id

/-- The drained events that are appended to the next window, none if the drain has broken off. -/
def upcoming : List Event :=
  if s.Torn (s.writer.reference now) then []
  else s.drainedFor (s.writer.reference now + s.writer.interval.millis)

/-- A drain after its appends. -/
def appended : Ingestion :=
  ((s.halfRouted now).appendBatch (s.writer.reference now + s.writer.interval.millis)
    (s.upcoming now)).1

/-- A drain up to its cleanup, or to where it breaks off. -/
def routed : Ingestion :=
  if s.BreaksOff now then s.appended now
  else
    { s.appended now with
      writer := { (s.appended now).writer with lastReference := some (s.writer.reference now) } }

/-- The number of events that appending a batch writes. -/
def written (key : Int) (events : List Event) : Nat :=
  (s.appendBatch key events).2.toOption.getD 0

/-- What a drain that finds the writer enabled reports, when its cleanup deletes the logs of some
windows. -/
def report (deleted : List Int) : DrainReport :=
  let reference := s.writer.reference now
  ⟨reference, s.queue.events.length,
    (s.rotated now).written reference (s.drainedFor reference),
    (s.halfRouted now).written (reference + s.writer.interval.millis) (s.upcoming now),
    (s.queue.events.filter fun e =>
      e.window s.writer.interval ≠ reference ∧
        e.window s.writer.interval ≠ reference + s.writer.interval.millis).length,
    ((s.begun now).rotate reference).2, deleted⟩

theorem drain_eq :
    s.drain now =
      if s.writer.enabled then { s with queue := s.queue.drain.2 }.write s.queue.events now
      else
        ({ s with queue := s.queue.drain.2 }.count .eventsDiscarded s.queue.events.length,
          .ok ⟨s.writer.reference now, s.queue.events.length, 0, 0, 0, [], []⟩) := rfl

variable {s}

theorem drain_of_not_enabled (h : ¬s.writer.enabled = true) :
    (s.drain now).1 =
      { s with queue := s.queue.drain.2 }.count .eventsDiscarded s.queue.events.length := by
  rw [drain_eq, if_neg h]

theorem report_of_not_enabled (h : ¬s.writer.enabled = true) {r : DrainReport}
    (hr : (s.drain now).2 = .ok r) : r.sealed = [] ∧ r.deleted = [] := by
  rw [drain_eq, if_neg h] at hr
  cases hr
  exact ⟨rfl, rfl⟩

end Stages

section Frame

/-- Nothing but logs, the windows that count as open, and counters differ. -/
structure OnlyLogs (s t : Ingestion) : Prop where
  queue : t.queue = s.queue
  settings : t.writer.settings = s.writer.settings
  enabled : t.writer.enabled = s.writer.enabled
  lastReference : t.writer.lastReference = s.writer.lastReference
  horizon : t.writer.horizon = s.writer.horizon
  faults : t.log.faults = s.log.faults
  strictNames : t.log.strictNames = s.log.strictNames

theorem OnlyLogs.refl (s : Ingestion) : OnlyLogs s s := ⟨rfl, rfl, rfl, rfl, rfl, rfl, rfl⟩

theorem OnlyLogs.trans {s t u : Ingestion} (h₁ : OnlyLogs s t) (h₂ : OnlyLogs t u) :
    OnlyLogs s u :=
  ⟨h₂.queue.trans h₁.queue, h₂.settings.trans h₁.settings, h₂.enabled.trans h₁.enabled,
    h₂.lastReference.trans h₁.lastReference, h₂.horizon.trans h₁.horizon,
    h₂.faults.trans h₁.faults, h₂.strictNames.trans h₁.strictNames⟩

end Frame

section Append

variable (s : Ingestion) (key : Int) (events : List Event)

/-- What appending a batch comes to: there is nothing to append, the batch is lost, or broken off
because it cannot be written, or it is written as a whole. -/
inductive Appends : Ingestion × Except LogError Nat → Prop
  | nothing (h : events = []) : Appends (s, .ok 0)
  | lost {log : EventLog} {e : LogError} (hne : events ≠ [])
      (h : s.log.append key events = (log, .error e)) (hsystem : e.isSystem = true) :
      Appends ({ s.mapOpenKeys (·.insert key) with log }.count .writeErrors 1, .ok 0)
  | torn (hfault : key ∉ s.log.faults.appends)
      (h : EventLog.Unwritable s.log.strictNames events) :
      Appends (s.mapOpenKeys (·.insert key), .error .unencodable)
  | written {log : EventLog} (hne : events ≠ []) (h : s.log.append key events = (log, .ok ())) :
      Appends ({ s.mapOpenKeys (·.insert key) with log }.count .eventsWritten events.length,
        .ok events.length)

theorem appendBatch_appends : Appends s key events (s.appendBatch key events) := by
  unfold appendBatch
  by_cases hempty : events = []
  · rw [if_pos hempty]
    exact .nothing hempty
  · rw [if_neg hempty]
    dsimp only [mapOpenKeys]
    have hcase := s.log.append_appends key events
    cases ha : s.log.append key events with
    | mk log outcome =>
      rw [ha] at hcase
      cases hcase with
      | nothing _ hnil => exact absurd hnil hempty
      | unencodable hfault h => exact .torn hfault h
      | failed hsystem _ =>
        dsimp only
        rw [if_pos hsystem]
        exact .lost hempty ha hsystem
      | broken _ _ _ _ _ => exact .lost hempty ha rfl
      | written _ _ _ _ => exact .written hempty ha

/-- An append fails exactly for a batch that cannot be written, unless it is made to fail first. -/
theorem appendBatch_outcome :
    (s.appendBatch key events).2 =
      if key ∉ s.log.faults.appends ∧ EventLog.Unwritable s.log.strictNames events then
        .error .unencodable
      else .ok (s.written key events) := by
  have hiff := (s.log.append_appends key events).unencodable_iff
  unfold written
  cases hb : s.appendBatch key events with
  | mk t outcome =>
    have hcase := s.appendBatch_appends key events
    rw [hb] at hcase
    cases hcase with
    | nothing hnil =>
      have hgood : ¬EventLog.Unwritable s.log.strictNames events := by
        subst hnil
        simp [EventLog.Unwritable]
      rw [if_neg fun h => hgood h.2]
      rfl
    | lost _ h hsystem =>
      rw [h] at hiff
      have hne : ¬(key ∉ s.log.faults.appends ∧
          EventLog.Unwritable s.log.strictNames events) := by
        intro hbad
        rw [Except.error.inj (hiff.mpr hbad)] at hsystem
        cases hsystem
      rw [if_neg hne]
      rfl
    | torn hfault h => rw [if_pos ⟨hfault, h⟩]
    | written _ h =>
      rw [h] at hiff
      have hne : ¬(key ∉ s.log.faults.appends ∧
          EventLog.Unwritable s.log.strictNames events) := by
        intro hbad
        cases hiff.mpr hbad
      rw [if_neg hne]
      rfl

/-- A batch is appended as far as the append writes it, or not at all. -/
theorem appendBatch_cases :
    OnlyLogs s (s.appendBatch key events).1 ∧
      ((s.appendBatch key events).1.log = s.log ∨
        ∃ bytes, events ≠ [] ∧ s.log.Writes key events bytes ∧
          s.log.addBytes key bytes = .ok (s.appendBatch key events).1.log) := by
  have hlog := s.log.append_appends key events
  cases hb : s.appendBatch key events with
  | mk t outcome =>
    have hcase := s.appendBatch_appends key events
    rw [hb] at hcase
    have hadd {log : EventLog} {bytes : List UInt8} (h : s.log.addBytes key bytes = .ok log) :
        log.faults = s.log.faults ∧ log.strictNames = s.log.strictNames := by
      obtain ⟨d, _, rfl⟩ := EventLog.of_addBytes h
      exact ⟨rfl, rfl⟩
    cases hcase with
    | nothing _ => exact ⟨OnlyLogs.refl s, Or.inl rfl⟩
    | torn _ _ => exact ⟨⟨rfl, rfl, rfl, rfl, rfl, rfl, rfl⟩, Or.inl rfl⟩
    | lost hne ha hsystem =>
      rw [ha] at hlog
      cases hlog with
      | unencodable _ _ => cases hsystem
      | failed _ _ => exact ⟨⟨rfl, rfl, rfl, rfl, rfl, rfl, rfl⟩, Or.inl rfl⟩
      | broken _ _ hwrites _ h =>
        obtain ⟨hfaults, hnames⟩ := hadd h
        exact ⟨⟨rfl, rfl, rfl, rfl, rfl, hfaults, hnames⟩, Or.inr ⟨_, hne, hwrites, h⟩⟩
    | written hne ha =>
      rw [ha] at hlog
      cases hlog with
      | nothing _ hnil => exact absurd hnil hne
      | written _ _ _ h =>
        obtain ⟨hfaults, hnames⟩ := hadd h
        exact ⟨⟨rfl, rfl, rfl, rfl, rfl, hfaults, hnames⟩,
          Or.inr ⟨_, hne, ⟨List.prefix_refl _, fun _ => rfl⟩, h⟩⟩

end Append

section Seal

variable (s : Ingestion) (key : Int) (keys : List Int)

theorem sealOpen_cases :
    OnlyLogs s (s.sealOpen key).1 ∧
      ((s.sealOpen key).2 = false ∧ (s.sealOpen key).1.log = s.log ∨
        (s.sealOpen key).2 = true ∧ s.log.sealWindow key = .ok ((s.sealOpen key).1.log, true)) := by
  unfold sealOpen
  split
  · exact ⟨⟨rfl, rfl, rfl, rfl, rfl, rfl, rfl⟩, Or.inl ⟨rfl, rfl⟩⟩
  · exact ⟨⟨rfl, rfl, rfl, rfl, rfl, rfl, rfl⟩, Or.inl ⟨rfl, rfl⟩⟩
  · next log renamed h =>
    rcases EventLog.sealWindow_cases h with ⟨rfl, rfl, _⟩ | ⟨rfl, hfaults, _⟩
    · exact ⟨⟨rfl, rfl, rfl, rfl, rfl, rfl, rfl⟩, Or.inl ⟨rfl, rfl⟩⟩
    · have hnames := EventLog.strictNames_of_sealWindow h
      exact ⟨⟨rfl, rfl, rfl, rfl, rfl, hfaults, hnames⟩, Or.inr ⟨rfl, h⟩⟩

/-- The open logs of some windows are sealed one after another. -/
inductive Seals : EventLog → List Int → EventLog → Prop
  | nil (log : EventLog) : Seals log [] log
  | cons {log₁ log₂ log₃ : EventLog} {key : Int} {rest : List Int}
      (first : log₁.sealWindow key = .ok (log₂, true)) (later : Seals log₂ rest log₃) :
      Seals log₁ (key :: rest) log₃

/-- Of the windows to be sealed, exactly those that are listed as sealed change their logs. -/
theorem sealAll_seals :
    OnlyLogs s (s.sealAll keys).1 ∧ Seals s.log (s.sealAll keys).2 (s.sealAll keys).1.log ∧
      (s.sealAll keys).2.Sublist keys := by
  induction keys generalizing s with
  | nil => exact ⟨OnlyLogs.refl s, .nil s.log, List.Sublist.refl _⟩
  | cons key rest ih =>
    obtain ⟨hlogs, hcase⟩ := s.sealOpen_cases key
    obtain ⟨hmore, hseals, hsub⟩ := ih (s.sealOpen key).1
    rw [sealAll]
    refine ⟨hlogs.trans hmore, ?_⟩
    rcases hcase with ⟨hnot, hsame⟩ | ⟨hyes, hseal⟩
    · rw [hsame] at hseals
      simp only [hnot, Bool.false_eq_true, if_false]
      exact ⟨hseals, hsub.cons key⟩
    · simp only [hyes, if_true]
      exact ⟨.cons hseal hseals, hsub.cons_cons key⟩

/-- A rotation seals windows before the reference window, each at most once. -/
theorem rotate_seals (reference : Int) :
    OnlyLogs s (s.rotate reference).1 ∧
      Seals s.log (s.rotate reference).2 (s.rotate reference).1.log ∧
      (s.rotate reference).2.Nodup ∧ ∀ k ∈ (s.rotate reference).2, k < reference := by
  unfold rotate
  split
  · refine ⟨OnlyLogs.refl s, .nil s.log, List.nodup_nil, ?_⟩
    intro k hk
    cases hk
  · obtain ⟨hlogs, hseals, hsub⟩ :=
      s.sealAll_seals (s.writer.openKeys.filter (· < reference)).toList
    have hascending := (s.writer.openKeys.filter (· < reference)).ascending
    refine ⟨hlogs, hseals, ?_, ?_⟩
    · apply List.Nodup.sublist hsub
      exact hascending.imp Int.ne_of_lt
    · intro k hk
      have hfiltered : k ∈ s.writer.openKeys.filter (· < reference) := hsub.subset hk
      exact of_decide_eq_true (KeySet.mem_filter.mp hfiltered).2

end Seal

section Cleanup

/-- What a cleanup comes to: it does nothing before the first drain or when it is not due, it is
refused, or it deletes the logs of all windows between the two horizons. -/
inductive Cleanup (s : Ingestion) (now : Int) :
    Ingestion × Except CleanupError (List Int) → Prop
  | unstarted (h : s.writer.horizon = none) : Cleanup s now (s, .ok [])
  | early {last : Int} (h : s.writer.horizon = some last)
      (hmoved : s.writer.retentionHorizon now - last ≤ s.writer.settings.cleanupPeriod) :
      Cleanup s now (s, .ok [])
  | refused {last : Int} {e : CleanupError} (h : s.writer.horizon = some last)
      (hmoved : s.writer.settings.cleanupPeriod < s.writer.retentionHorizon now - last)
      (hcount : CleanupError.ofCount? s.writer.settings.listLimit
        (s.writer.interval.countBetween (s.writer.interval.key last)
          (s.writer.retentionHorizon now)) = some e) :
      Cleanup s now (s, .error e)
  | due {last : Int} (h : s.writer.horizon = some last)
      (hmoved : s.writer.settings.cleanupPeriod < s.writer.retentionHorizon now - last)
      (hcount : CleanupError.ofCount? s.writer.settings.listLimit
        (s.writer.interval.countBetween (s.writer.interval.key last)
          (s.writer.retentionHorizon now)) = none) :
      Cleanup s now
        ((s.expire (s.writer.interval.keysBetween (s.writer.interval.key last)
          (s.writer.retentionHorizon now)) (s.writer.retentionHorizon now)).1,
        .ok (s.expire (s.writer.interval.keysBetween (s.writer.interval.key last)
          (s.writer.retentionHorizon now)) (s.writer.retentionHorizon now)).2)

theorem cleanup_cleanup (s : Ingestion) (now : Int) : Cleanup s now (s.cleanup now) := by
  unfold cleanup
  split
  · next h => exact .unstarted h
  · next last h =>
    dsimp only
    split
    · next hmoved => exact .early h hmoved
    · next hmoved =>
      split
      · next e hcount => exact .refused h (Int.not_le.mp hmoved) hcount
      · next hcount => exact .due h (Int.not_le.mp hmoved) hcount

variable (s : Ingestion) (keys : List Int) (horizon : Int)

@[simp] theorem log_expire : (s.expire keys horizon).1.log = (s.log.delete keys).1 := rfl

theorem horizon_expire :
    (s.expire keys horizon).1.writer.horizon =
      some ((least? (s.log.delete keys).2.2).getD horizon) := rfl

@[simp] theorem deleted_expire : (s.expire keys horizon).2 = (s.log.delete keys).2.1 := rfl

/-- The windows that a cleanup deletes are old enough. -/
theorem le_of_mem_keysBetween {last now k : Int}
    (hk : k ∈ s.writer.interval.keysBetween (s.writer.interval.key last)
      (s.writer.retentionHorizon now)) :
    k + s.writer.interval.millis + s.writer.settings.retention ≤ now := by
  obtain ⟨n, _, hle⟩ := Interval.mem_keysBetween.mp hk
  have hkey := s.writer.interval.key_le (now - s.writer.settings.retention)
  unfold Writer.retentionHorizon at hle
  omega

end Cleanup

section Steps

variable (s : Ingestion)

theorem queue_cleanup (now : Int) : (s.cleanup now).1.queue = s.queue := by
  cases h : s.cleanup now with
  | mk t outcome =>
    have hcase := s.cleanup_cleanup now
    rw [h] at hcase
    cases hcase <;> rfl

theorem settings_cleanup (now : Int) :
    (s.cleanup now).1.writer.settings = s.writer.settings := by
  cases h : s.cleanup now with
  | mk t outcome =>
    have hcase := s.cleanup_cleanup now
    rw [h] at hcase
    cases hcase <;> rfl

/-- A drain that finds the writer enabled changes the logs by one rotation and two appends, and then
by its cleanup, if it does not break off before that. -/
theorem onlyLogs_appended (now : Int) :
    OnlyLogs (s.begun now) (s.rotated now) ∧ OnlyLogs (s.rotated now) (s.halfRouted now) ∧
      OnlyLogs (s.halfRouted now) (s.appended now) :=
  ⟨((s.begun now).rotate_seals (s.writer.reference now)).1,
    ((s.rotated now).appendBatch_cases _ _).1, ((s.halfRouted now).appendBatch_cases _ _).1⟩

theorem onlyLogs_routed (now : Int) :
    OnlyLogs (s.begun now) (s.rotated now) ∧ OnlyLogs (s.rotated now) (s.halfRouted now) ∧
      (s.routed now).queue = (s.begun now).queue ∧
      (s.routed now).writer.settings = s.writer.settings ∧
      (s.routed now).writer.enabled = s.writer.enabled ∧
      (s.routed now).writer.horizon =
        some (s.writer.horizon.getD (s.writer.reference now)) ∧
      (s.routed now).log.faults = s.log.faults := by
  obtain ⟨h₁, h₂, h₃⟩ := s.onlyLogs_appended now
  have h := (h₁.trans h₂).trans h₃
  unfold routed
  split
  · exact ⟨h₁, h₂, h.queue, h.settings, h.enabled, h.horizon, h.faults⟩
  · exact ⟨h₁, h₂, h.queue, h.settings, h.enabled, h.horizon, h.faults⟩

theorem log_routed (now : Int) : (s.routed now).log = (s.appended now).log := by
  unfold routed
  split <;> rfl

theorem openKeys_routed (now : Int) :
    (s.routed now).writer.openKeys = (s.appended now).writer.openKeys := by
  unfold routed
  split <;> rfl

theorem counters_routed (now : Int) : (s.routed now).counters = (s.appended now).counters := by
  unfold routed
  split <;> rfl

theorem lastReference_routed (now : Int) :
    (s.routed now).writer.lastReference =
      if s.BreaksOff now then s.writer.lastReference else some (s.writer.reference now) := by
  obtain ⟨h₁, h₂, h₃⟩ := s.onlyLogs_appended now
  unfold routed
  split
  · exact ((h₁.trans h₂).trans h₃).lastReference
  · rfl

section Outcome

variable (now : Int) {s}

theorem appendBoth_of_error {first second : Int × List Event} {e : LogError}
    (h : (s.appendBatch first.1 first.2).2 = .error e) :
    s.appendBoth first second = ((s.appendBatch first.1 first.2).1, .error e) := by
  have hpair : s.appendBatch first.1 first.2 = ((s.appendBatch first.1 first.2).1, .error e) :=
    Prod.ext rfl h
  unfold appendBoth
  rw [hpair]

theorem appendBoth_of_ok {first second : Int × List Event} {n : Nat}
    (h : (s.appendBatch first.1 first.2).2 = .ok n) :
    s.appendBoth first second =
      (((s.appendBatch first.1 first.2).1.appendBatch second.1 second.2).1,
        ((s.appendBatch first.1 first.2).1.appendBatch second.1 second.2).2.map (n, ·)) := by
  have hpair : s.appendBatch first.1 first.2 = ((s.appendBatch first.1 first.2).1, .ok n) :=
    Prod.ext rfl h
  unfold appendBoth
  rw [hpair]

/-- The batch of a window is appended unless it cannot be written. -/
theorem appendBatch_drainedFor {t : Ingestion} (h : OnlyLogs (s.begun now) t) (key : Int) :
    (t.appendBatch key (s.drainedFor key)).2 =
      if s.Torn key then .error .unencodable else .ok (t.written key (s.drainedFor key)) := by
  rw [appendBatch_outcome, h.faults, h.strictNames]
  rfl

/-- The appends of a drain fail exactly where it breaks off. -/
theorem appendBoth_rotated :
    (s.rotated now).appendBoth (s.writer.reference now, s.drainedFor (s.writer.reference now))
        (s.writer.reference now + s.writer.interval.millis,
          s.drainedFor (s.writer.reference now + s.writer.interval.millis)) =
      (s.appended now,
        if s.BreaksOff now then .error .unencodable
        else .ok ((s.rotated now).written (s.writer.reference now)
            (s.drainedFor (s.writer.reference now)),
          (s.halfRouted now).written (s.writer.reference now + s.writer.interval.millis)
            (s.upcoming now))) := by
  obtain ⟨h₁, h₂, _⟩ := s.onlyLogs_appended now
  have hfirst := appendBatch_drainedFor now h₁ (s.writer.reference now)
  have hsecond := appendBatch_drainedFor now (h₁.trans h₂)
    (s.writer.reference now + s.writer.interval.millis)
  by_cases htorn : s.Torn (s.writer.reference now)
  -- The second batch is not tried where the first one cannot be written.
  · have hbreaks : s.BreaksOff now := Or.inl htorn
    rw [if_pos htorn] at hfirst
    rw [appendBoth_of_error hfirst, if_pos hbreaks, appended, upcoming, if_pos htorn]
    rfl
  · rw [if_neg htorn] at hfirst
    rw [appendBoth_of_ok hfirst, appended, upcoming, if_neg htorn]
    refine Prod.ext rfl ?_
    change Except.map _ ((s.halfRouted now).appendBatch
      (s.writer.reference now + s.writer.interval.millis)
      (s.drainedFor (s.writer.reference now + s.writer.interval.millis))).2 = _
    rw [hsecond]
    by_cases hnext : s.Torn (s.writer.reference now + s.writer.interval.millis)
    · have hbreaks : s.BreaksOff now := Or.inr hnext
      rw [if_pos hbreaks, if_pos hnext]
      rfl
    · have hwhole : ¬s.BreaksOff now := fun h => h.elim htorn hnext
      rw [if_neg hwhole, if_neg hnext]
      rfl

theorem write_eq :
    { s with queue := s.queue.drain.2 }.write s.queue.events now =
      match (s.rotated now).appendBoth
          (s.writer.reference now, s.drainedFor (s.writer.reference now))
          (s.writer.reference now + s.writer.interval.millis,
            s.drainedFor (s.writer.reference now + s.writer.interval.millis)) with
      | (t, .error e) => (t, .error (.log e))
      | (t, .ok (n, m)) =>
        let t := { t with
          writer := { t.writer with lastReference := some (s.writer.reference now) } }
        ((t.cleanup now).1, ((t.cleanup now).2.mapError .cleanup).map fun deleted =>
          { s.report now deleted with writtenCurrent := n, writtenNext := m }) := rfl

theorem drain_of_breaksOff (h : s.writer.enabled = true) (hbreaks : s.BreaksOff now) :
    s.drain now = (s.routed now, .error (.log .unencodable)) := by
  have hboth := appendBoth_rotated (s := s) now
  rw [if_pos hbreaks] at hboth
  rw [drain_eq, if_pos h, write_eq, hboth, routed, if_pos hbreaks]

/-- A drain that does not break off ends with its cleanup, and reports something exactly when that
is not refused. -/
theorem drain_of_enabled (h : s.writer.enabled = true) (hwhole : ¬s.BreaksOff now) :
    s.drain now = (((s.routed now).cleanup now).1,
      (((s.routed now).cleanup now).2.mapError .cleanup).map (s.report now)) := by
  have hboth := appendBoth_rotated (s := s) now
  rw [if_neg hwhole] at hboth
  rw [drain_eq, if_pos h, write_eq, hboth, routed, if_neg hwhole]
  rfl

/-- What holds where a drain breaks off, and after its cleanup if it does not, holds after it. -/
theorem drain_cases {P : Ingestion → Prop} (h : s.writer.enabled = true)
    (hbroken : s.BreaksOff now → P (s.routed now))
    (hwhole : ¬s.BreaksOff now → P ((s.routed now).cleanup now).1) : P (s.drain now).1 := by
  by_cases hbreaks : s.BreaksOff now
  · rw [drain_of_breaksOff now h hbreaks]
    exact hbroken hbreaks
  · rw [drain_of_enabled now h hbreaks]
    exact hwhole hbreaks

theorem report_of_enabled (h : s.writer.enabled = true) {r : DrainReport}
    (hr : (s.drain now).2 = .ok r) :
    ¬s.BreaksOff now ∧ r = s.report now r.deleted ∧
      ((s.routed now).cleanup now).2 = .ok r.deleted := by
  by_cases hbreaks : s.BreaksOff now
  · rw [drain_of_breaksOff now h hbreaks] at hr
    cases hr
  · rw [drain_of_enabled now h hbreaks] at hr
    refine ⟨hbreaks, ?_⟩
    cases hc : ((s.routed now).cleanup now).2 with
    | error e =>
      rw [hc] at hr
      cases hr
    | ok deleted =>
      rw [hc] at hr
      cases hr
      exact ⟨rfl, rfl⟩

theorem drained_of_report {r : DrainReport} (hr : (s.drain now).2 = .ok r) :
    r.drained = s.queue.events.length := by
  by_cases h : s.writer.enabled = true
  · exact congrArg DrainReport.drained (report_of_enabled now h hr).2.1
  · rw [drain_eq, if_neg h] at hr
    cases hr
    rfl

end Outcome

theorem queue_drain (now : Int) : (s.drain now).1.queue = s.queue.drain.2 := by
  by_cases h : s.writer.enabled = true
  · have hrouted := (s.onlyLogs_routed now).2.2.1
    exact drain_cases (P := fun t => t.queue = s.queue.drain.2) now h (fun _ => hrouted)
      fun _ => (queue_cleanup _ now).trans hrouted
  · rw [drain_of_not_enabled now h]
    rfl

theorem settings_act (a : Action) : (s.act a).writer.settings = s.writer.settings := by
  cases a with
  | put o => rfl
  | drain now =>
    change (s.drain now).1.writer.settings = _
    by_cases h : s.writer.enabled = true
    · have hrouted := (s.onlyLogs_routed now).2.2.2.1
      exact drain_cases (P := fun t => t.writer.settings = s.writer.settings) now h
        (fun _ => hrouted) fun _ => (settings_cleanup _ now).trans hrouted
    · rw [drain_of_not_enabled now h]
      rfl
  | cleanup now => exact s.settings_cleanup now
  | enable on => rfl
  | fail faults => rfl

theorem faults_cleanup (now : Int) : (s.cleanup now).1.log.faults = s.log.faults := by
  cases h : s.cleanup now with
  | mk t outcome =>
    have hcase := s.cleanup_cleanup now
    rw [h] at hcase
    cases hcase <;> rfl

theorem faults_drain (now : Int) : (s.drain now).1.log.faults = s.log.faults := by
  by_cases hon : s.writer.enabled = true
  · have hrouted := (s.onlyLogs_routed now).2.2.2.2.2.2
    exact drain_cases (P := fun t => t.log.faults = s.log.faults) now hon (fun _ => hrouted)
      fun _ => (faults_cleanup _ now).trans hrouted
  · rw [drain_of_not_enabled now hon]
    rfl

/-- The failures to come stay as they are until others are set. -/
theorem faults_act (a : Action) :
    (s.act a).log.faults = s.log.faults ∨ ∃ faults, a = .fail faults ∧
      (s.act a).log.faults = faults := by
  cases a with
  | put o => exact Or.inl rfl
  | drain now => exact Or.inl (s.faults_drain now)
  | cleanup now => exact Or.inl (s.faults_cleanup now)
  | enable on => exact Or.inl rfl
  | fail faults => exact Or.inr ⟨faults, rfl, rfl⟩

/-- Appends that fail write nothing, in all of a run. -/
def AllOrNothing (s : Ingestion) (actions : List Action) : Prop :=
  s.log.faults.partials = [] ∧ ∀ faults, .fail faults ∈ actions → faults.partials = []

theorem AllOrNothing.act {s : Ingestion} {a : Action} {rest : List Action}
    (h : s.AllOrNothing (a :: rest)) : (s.act a).AllOrNothing rest := by
  refine ⟨?_, fun faults hmem => h.2 faults (.tail _ hmem)⟩
  rcases s.faults_act a with hsame | ⟨faults, rfl, hfaults⟩
  · rw [hsame]
    exact h.1
  · rw [hfaults]
    exact h.2 faults (.head _)

theorem strictNames_cleanup (now : Int) :
    (s.cleanup now).1.log.strictNames = s.log.strictNames := by
  cases h : s.cleanup now with
  | mk t outcome =>
    have hcase := s.cleanup_cleanup now
    rw [h] at hcase
    cases hcase <;> rfl

theorem strictNames_act (a : Action) : (s.act a).log.strictNames = s.log.strictNames := by
  cases a with
  | put o => rfl
  | drain now =>
    change (s.drain now).1.log.strictNames = _
    by_cases h : s.writer.enabled = true
    · have hrouted : (s.routed now).log.strictNames = s.log.strictNames := by
        obtain ⟨h₁, h₂, h₃⟩ := s.onlyLogs_appended now
        rw [log_routed]
        exact ((h₁.trans h₂).trans h₃).strictNames
      exact drain_cases (P := fun t => t.log.strictNames = s.log.strictNames) now h
        (fun _ => hrouted) fun _ => (strictNames_cleanup _ now).trans hrouted
    · rw [drain_of_not_enabled now h]
      rfl
  | cleanup now => exact s.strictNames_cleanup now
  | enable on => rfl
  | fail faults => rfl

theorem strictNames_perform (actions : List Action) :
    (s.perform actions).log.strictNames = s.log.strictNames := by
  induction actions generalizing s with
  | nil => rfl
  | cons a rest ih =>
    change ((s.act a).perform rest).log.strictNames = _
    rw [ih, strictNames_act]

theorem settings_perform (actions : List Action) :
    (s.perform actions).writer.settings = s.writer.settings := by
  induction actions generalizing s with
  | nil => rfl
  | cons a rest ih =>
    change ((s.act a).perform rest).writer.settings = _
    rw [ih, settings_act]

theorem reference_mono (w : Writer) {t now : Int} (h : t ≤ now) :
    w.reference t ≤ w.reference now := by
  have hkey := w.interval.key_mono h
  unfold Writer.reference
  omega

theorem reference_perform (actions : List Action) (now : Int) :
    (s.perform actions).writer.reference now = s.writer.reference now := by
  unfold Writer.reference Writer.interval
  rw [settings_perform]

/-- What offering something to the queue comes to: it is no event, there is no room for it, or the
queue takes it. -/
inductive Offers (o : Offer) : Ingestion × Bool → Prop
  | malformed (h : o.event? = none) : Offers o (s.count .malformedEvents 1, false)
  | overflow {e : Event} (h : o.event? = some e) (hfull : s.queue.push? e = none) :
      Offers o (s.count .queueOverflow 1, false)
  | taken {e : Event} {queue : EventQueue} (h : o.event? = some e)
      (hroom : s.queue.push? e = some queue) : Offers o ({ s with queue }, true)

theorem put_offers (o : Offer) : s.Offers o (s.put o) := by
  unfold put EventQueue.put
  cases he : o.event? with
  | none => exact .malformed he
  | some e =>
    cases hq : s.queue.push? e with
    | none =>
      simp only [hq]
      exact .overflow he hq
    | some queue =>
      simp only [hq]
      exact .taken he hq

theorem events_put (o : Offer) :
    (s.put o).1.queue.events = s.queue.events ++ s.taken (.put o) := by
  change _ = s.queue.events ++ if (s.put o).2 then o.event?.toList else []
  cases hp : s.put o with
  | mk t answer =>
    have hcase := s.put_offers o
    rw [hp] at hcase
    cases hcase with
    | malformed _ => exact (List.append_nil _).symm
    | overflow _ _ => exact (List.append_nil _).symm
    | taken he hroom =>
      rw [if_pos rfl, he]
      exact EventQueue.events_of_push? hroom

/-- What an action takes out of the queue was there, and what it adds comes last. -/
theorem queue_act (a : Action) :
    s.queue.events ++ s.taken a = s.drained a ++ (s.act a).queue.events := by
  cases a with
  | put o => exact (s.events_put o).symm
  | drain now =>
    have hempty : (s.drain now).1.queue.events = [] :=
      congrArg EventQueue.events (s.queue_drain now)
    exact congrArg (s.queue.events ++ ·) hempty.symm
  | cleanup now =>
    have hsame : (s.cleanup now).1.queue.events = s.queue.events :=
      congrArg EventQueue.events (s.queue_cleanup now)
    exact (List.append_nil _).trans hsame.symm
  | enable on => exact List.append_nil _
  | fail faults => exact List.append_nil _

end Steps

end Ingestion

end RequestWindows
