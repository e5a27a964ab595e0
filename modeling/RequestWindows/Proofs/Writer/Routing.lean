import RequestWindows.Proofs.Writer.Accounts
import RequestWindows.Proofs.Writer.Settled

/-! Whether events can be appended to the log of a window depends on nothing that an append changes.
So a drain that does not break off writes for each of its two windows all events drained for it or
none. -/
namespace RequestWindows

namespace EventLog

/-- Whether events can be appended to the open log of a window. -/
def accepts (log : EventLog) (key : Int) : Bool :=
  key ∉ log.faults.appends ∧ ¬TooLong key ∧ log.logAt key false ≠ some .folder

/-- What stands in the place of a log after events have been appended to it. -/
def grown (entry : Option Entry) (events : List Event) : Option Entry :=
  if events = [] then entry
  else
    some (.file ((match entry with
      | some (.file bytes) => bytes
      | _ => []) ++ linesOf events))

variable {log : EventLog} {key : Int} {events : List Event}

@[simp] theorem grown_nil (entry : Option Entry) : grown entry [] = entry := if_pos rfl

/-- Two batches are appended as one. -/
theorem grown_grown (entry : Option Entry) (first later : List Event) :
    grown (grown entry first) later = grown entry (first ++ later) := by
  by_cases hfirst : first = []
  · rw [hfirst, grown_nil, List.nil_append]
  by_cases hlater : later = []
  · rw [hlater, grown_nil, List.append_nil]
  have hboth : first ++ later ≠ [] := fun h => hfirst (List.append_eq_nil_iff.mp h).1
  unfold grown
  rw [if_neg hfirst, if_neg hlater, if_neg hboth, linesOf_append, ← List.append_assoc]

theorem grown_eq_folder_iff {entry : Option Entry} :
    grown entry events = some .folder ↔ events = [] ∧ entry = some .folder := by
  unfold grown
  by_cases hnil : events = []
  · simp [hnil]
  · simp [hnil]

/-- Events that can be written are appended exactly if nothing is to fail, the name is not too long
and no folder stands in the way. -/
theorem append_ok_iff (hne : events ≠ []) (hpartials : log.faults.partials = [])
    (hgood : ¬(key ∉ log.faults.appends ∧ Unwritable log.strictNames events)) :
    (log.append key events).2 = .ok () ↔ log.accepts key = true := by
  unfold accepts append
  rw [decide_eq_true_eq, if_neg hne]
  by_cases hfault : key ∈ log.faults.appends
  · rw [if_pos hfault]
    simp [hfault]
  have hwritable : events.all (·.isWritable log.strictNames) = true :=
    all_isWritable_iff.mpr fun h => hgood ⟨hfault, h⟩
  rw [if_neg hfault, if_neg fun h => h hwritable, hpartials]
  unfold addBytes Directory.append
  by_cases hlong : TooLong key
  · have hfind : log.directory.find (openName key) = .error .nameTooLong := if_pos hlong
    rw [hfind]
    simp [hlong, Bind.bind, Except.bind]
  have hfind : log.directory.find (openName key) = .ok (log.logAt key false) :=
    log.find_logName (size_logName_le hlong false)
  rw [hfind]
  cases hentry : log.logAt key false with
  | none => simp [hfault, hlong, Bind.bind, Except.bind, Pure.pure, Except.pure]
  | some entry =>
    cases entry with
    | file bytes => simp [hfault, hlong, Bind.bind, Except.bind, Pure.pure, Except.pure]
    | folder => simp [Bind.bind, Except.bind, throw, throwThe, MonadExceptOf.throw]

end EventLog

namespace Ingestion

open EventLog (grown)

variable {s t : Ingestion} {key k now now' : Int} {events : List Event}

section Append

/-- A batch that can be appended is added to the open log of its window, and nothing else changes in
any log. -/
theorem logAt_appendBatch (hpartials : s.log.faults.partials = [])
    (hgood : ¬(key ∉ s.log.faults.appends ∧ EventLog.Unwritable s.log.strictNames events))
    (k : Int) (b : Bool) :
    (s.appendBatch key events).1.log.logAt k b =
      if (k = key ∧ b = false) ∧ s.log.accepts key = true then
        grown (s.log.logAt key false) events
      else s.log.logAt k b := by
  by_cases hnil : events = []
  · rw [appendBatch, if_pos hnil, hnil, EventLog.grown_nil]
    split
    · next h =>
      obtain ⟨⟨rfl, rfl⟩, _⟩ := h
      rfl
    · rfl
  · have hiff := EventLog.append_ok_iff hnil hpartials hgood
    have hcase := s.log.append_appends key events
    rw [log_appendBatch]
    cases ha : s.log.append key events with
    | mk log outcome =>
      rw [ha] at hcase hiff
      cases hcase with
      | nothing _ h => exact absurd h hnil
      | unencodable hfault hbad => exact absurd ⟨hfault, hbad⟩ hgood
      | failed _ _ => rw [if_neg fun h => nomatch hiff.mpr h.2]
      | broken _ _ _ hpartial _ =>
        rw [hpartials] at hpartial
        cases hpartial
      | written _ _ _ hadd =>
        rw [EventLog.logAt_of_addBytes hadd]
        unfold grown
        simp only [hiff.mp rfl, and_true, if_neg hnil]
        rfl

/-- All events of a batch are written or none. -/
theorem length_written (s : Ingestion) (key : Int) (events : List Event) :
    (s.batch key events .written).flatten.length = s.written key events := by
  unfold written
  cases ht : s.appendBatch key events with
  | mk t outcome =>
    have hcase := s.appendBatch_appends key events
    rw [ht] at hcase
    cases hcase with
    | nothing hnil =>
      rw [batch_of_nil hnil]
      rfl
    | written hne ha =>
      rw [written_eq (by rw [ha])]
      rfl
    | lost _ ha _ =>
      rw [batch_of_ne (mt Fate.ofOutcome_eq_written_iff.mp (by rw [ha]; nofun))]
      rfl
    | torn hfault hbad =>
      have hfate := abandoned_iff.mpr ⟨hfault, hbad⟩
      rw [batch_of_ne (by rw [hfate]; nofun)]
      rfl

theorem written_eq_ite (hpartials : s.log.faults.partials = [])
    (hgood : ¬(key ∉ s.log.faults.appends ∧ EventLog.Unwritable s.log.strictNames events)) :
    s.written key events = if s.log.accepts key = true then events.length else 0 := by
  rw [← length_written]
  by_cases hnil : events = []
  · rw [batch_of_nil hnil, hnil]
    exact (ite_self 0).symm
  · have hiff := EventLog.append_ok_iff hnil hpartials hgood
    by_cases hok : (s.log.append key events).2 = .ok ()
    · rw [written_eq hok, if_pos (hiff.mp hok)]
    · rw [batch_of_ne (mt Fate.ofOutcome_eq_written_iff.mp hok), if_neg (mt hiff.mpr hok)]
      rfl

/-- An append does not change what can be appended to. -/
theorem accepts_appendBatch (hpartials : s.log.faults.partials = [])
    (hgood : ¬(key ∉ s.log.faults.appends ∧ EventLog.Unwritable s.log.strictNames events))
    (k : Int) : (s.appendBatch key events).1.log.accepts k = s.log.accepts k := by
  have hfaults := (s.appendBatch_cases key events).1.faults
  -- An append neither puts a folder in the place of a log nor takes one away.
  have hfolder : (s.appendBatch key events).1.log.logAt k false = some .folder ↔
      s.log.logAt k false = some .folder := by
    rw [logAt_appendBatch hpartials hgood]
    split
    · next h =>
      obtain ⟨⟨rfl, _⟩, haccepts⟩ := h
      have hno : s.log.logAt k false ≠ some .folder := (of_decide_eq_true haccepts).2.2
      rw [EventLog.grown_eq_folder_iff]
      exact iff_of_false (fun h => hno h.2) hno
    · rfl
  unfold EventLog.accepts
  rw [hfaults]
  simp only [ne_eq, hfolder]

end Append

section Drain

/-- The number of drained events that are written to a window. -/
def writtenTo (s : Ingestion) (now key : Int) : Nat :=
  if (s.rotated now).log.accepts key = true then (s.drainedFor key).length else 0

/-- Neither append of a drain breaks off, before or after it has written something. -/
structure Smooth (s : Ingestion) (now : Int) : Prop where
  partials : s.log.faults.partials = []
  whole : ¬s.BreaksOff now

namespace Smooth

variable (h : s.Smooth now)

include h

theorem not_torn : ¬s.Torn (s.writer.reference now) := fun htorn => h.whole (Or.inl htorn)

theorem upcoming_eq :
    s.upcoming now = s.drainedFor (s.writer.reference now + s.writer.interval.millis) :=
  if_neg h.not_torn

/-- What the first append finds. -/
theorem rotated : (s.rotated now).log.faults.partials = [] ∧
    ¬(s.writer.reference now ∉ (s.rotated now).log.faults.appends ∧
      EventLog.Unwritable (s.rotated now).log.strictNames
        (s.drainedFor (s.writer.reference now))) := by
  obtain ⟨h₁, _, _⟩ := s.onlyLogs_appended now
  rw [h₁.faults, h₁.strictNames]
  exact ⟨h.partials, h.not_torn⟩

/-- What the second append finds. -/
theorem halfRouted : (s.halfRouted now).log.faults.partials = [] ∧
    ¬(s.writer.reference now + s.writer.interval.millis ∉ (s.halfRouted now).log.faults.appends ∧
      EventLog.Unwritable (s.halfRouted now).log.strictNames (s.upcoming now)) := by
  obtain ⟨h₁, h₂, _⟩ := s.onlyLogs_appended now
  rw [(h₁.trans h₂).faults, (h₁.trans h₂).strictNames, h.upcoming_eq]
  exact ⟨h.partials, fun htorn => h.whole (Or.inr htorn)⟩

end Smooth

/-- A drain adds the events drained for its two windows to their open logs, as far as they can be
appended, and changes no log further after its rotation. -/
theorem logAt_routed (h : s.Smooth now) (k : Int) (b : Bool) :
    (s.routed now).log.logAt k b =
      if ((k = s.writer.reference now ∨ k = s.writer.reference now + s.writer.interval.millis) ∧
          b = false) ∧ (s.rotated now).log.accepts k = true then
        grown ((s.rotated now).log.logAt k false) (s.drainedFor k)
      else (s.rotated now).log.logAt k b := by
  have hpos := s.writer.interval.pos
  have hne : s.writer.reference now + s.writer.interval.millis ≠ s.writer.reference now := by omega
  have hhalf (k : Int) (b : Bool) : (s.halfRouted now).log.logAt k b = _ :=
    logAt_appendBatch h.rotated.1 h.rotated.2 k b
  have haccepts (k : Int) : (s.halfRouted now).log.accepts k = (s.rotated now).log.accepts k :=
    accepts_appendBatch h.rotated.1 h.rotated.2 k
  rw [log_routed, appended, logAt_appendBatch h.halfRouted.1 h.halfRouted.2, haccepts, hhalf,
    hhalf, h.upcoming_eq]
  -- The two windows differ, so that the second append finds its log as the rotation left it.
  by_cases hnext : k = s.writer.reference now + s.writer.interval.millis
  · simp only [hnext, true_and, or_true, hne, false_and, if_false]
  · by_cases hcurrent : k = s.writer.reference now
    · simp only [hcurrent, hne.symm, false_and, if_false, true_and, true_or]
    · simp only [hnext, hcurrent, false_and, or_false, if_false]

theorem accepts_routed (h : s.Smooth now) (k : Int) :
    (s.routed now).log.accepts k = (s.rotated now).log.accepts k := by
  rw [log_routed]
  exact (accepts_appendBatch h.halfRouted.1 h.halfRouted.2 k).trans
    (accepts_appendBatch h.rotated.1 h.rotated.2 k)

/-- A drain writes as much to each of its windows as can be appended to the logs that its rotation
leaves. -/
theorem written_rotated (h : s.Smooth now) :
    (s.rotated now).written (s.writer.reference now) (s.drainedFor (s.writer.reference now)) =
        s.writtenTo now (s.writer.reference now) ∧
      (s.halfRouted now).written (s.writer.reference now + s.writer.interval.millis)
          (s.upcoming now) =
        s.writtenTo now (s.writer.reference now + s.writer.interval.millis) := by
  have haccepts : (s.halfRouted now).log.accepts _ = (s.rotated now).log.accepts _ :=
    accepts_appendBatch h.rotated.1 h.rotated.2
      (s.writer.reference now + s.writer.interval.millis)
  rw [written_eq_ite h.rotated.1 h.rotated.2, written_eq_ite h.halfRouted.1 h.halfRouted.2,
    haccepts, h.upcoming_eq]
  exact ⟨rfl, rfl⟩

/-- What a drain that finds the writer enabled reports about the events that it drains. -/
theorem written_of_report (hon : s.writer.enabled = true) (h : s.Smooth now) {r : DrainReport}
    (hr : (s.drain now).2 = .ok r) :
    r.writtenCurrent = s.writtenTo now (s.writer.reference now) ∧
      r.writtenNext = s.writtenTo now (s.writer.reference now + s.writer.interval.millis) ∧
      r.stale = (s.stale (.drain now)).length := by
  obtain ⟨_, hreport, _⟩ := report_of_enabled now hon hr
  obtain ⟨hcurrent, hnext⟩ := written_rotated h
  rw [hreport, stale, ofDrain_of_enabled hon]
  exact ⟨hcurrent, hnext, rfl⟩

theorem length_written_drain (hon : s.writer.enabled = true) (h : s.Smooth now) :
    (s.batches .written (.drain now)).flatten.length = s.writtenTo now (s.writer.reference now) +
      s.writtenTo now (s.writer.reference now + s.writer.interval.millis) := by
  obtain ⟨hcurrent, hnext⟩ := written_rotated h
  rw [batches, ofDrain_of_enabled hon, List.flatten_append, List.length_append, length_written,
    length_written, hcurrent, hnext]

/-- A cleanup leaves the logs that are not before its horizon. -/
theorem logAt_cleanup_of_le (hk : s.writer.retentionHorizon now ≤ k) (b : Bool) :
    (s.cleanup now).1.log.logAt k b = s.log.logAt k b := by
  have hcase := s.cleanup_cleanup now
  cases hc : s.cleanup now with
  | mk t outcome =>
    rw [hc] at hcase
    cases hcase with
    | unstarted _ => rfl
    | early _ _ => rfl
    | refused _ _ _ => rfl
    | @due last _ _ _ =>
      obtain ⟨⟨gone, hgone⟩, _⟩ := s.log.delete_deleted (s.writer.interval.keysBetween
        (s.writer.interval.key last) (s.writer.retentionHorizon now))
      refine (hgone.left k b).trans (if_neg fun hmem => ?_)
      obtain ⟨_, _, hbefore⟩ := Interval.mem_keysBetween.mp (hgone.mem_keys _ hmem)
      have hpos := s.writer.interval.pos
      dsimp only at hbefore
      omega

theorem retentionHorizon_routed (s : Ingestion) (now : Int) :
    (s.routed now).writer.retentionHorizon now = s.writer.retentionHorizon now := by
  unfold Writer.retentionHorizon Writer.interval
  rw [settings_routed]

theorem logAt_drain_of_le (hon : s.writer.enabled = true) (hwhole : ¬s.BreaksOff now)
    (hk : s.writer.retentionHorizon now ≤ k) (b : Bool) :
    (s.drain now).1.log.logAt k b = (s.routed now).log.logAt k b := by
  rw [← s.retentionHorizon_routed] at hk
  rw [drain_of_enabled now hon hwhole]
  exact logAt_cleanup_of_le (s := s.routed now) hk b

/-- What can be appended to after a drain could be appended to during it. -/
theorem accepts_drain_of_le (hon : s.writer.enabled = true) (h : s.Smooth now)
    (hk : s.writer.retentionHorizon now ≤ k) :
    (s.drain now).1.log.accepts k = (s.rotated now).log.accepts k := by
  have hfaults : (s.drain now).1.log.faults = (s.routed now).log.faults :=
    (s.faults_drain now).trans (s.onlyLogs_routed now).2.2.2.2.2.2.symm
  rw [← accepts_routed h]
  unfold EventLog.accepts
  rw [hfaults, logAt_drain_of_le hon h.whole hk]

end Drain

section Rotation

theorem sealOpen_congr (hlog : s.log = t.log) (hkeys : s.writer.openKeys = t.writer.openKeys)
    (key : Int) :
    (s.sealOpen key).1.log = (t.sealOpen key).1.log ∧
      (s.sealOpen key).1.writer.openKeys = (t.sealOpen key).1.writer.openKeys ∧
      (s.sealOpen key).2 = (t.sealOpen key).2 := by
  unfold sealOpen
  rw [hlog]
  split
  · exact ⟨hlog, congrArg (·.erase key) hkeys, rfl⟩
  · exact ⟨hlog, hkeys, rfl⟩
  · next log renamed _ =>
    cases renamed
    · exact ⟨rfl, congrArg (·.erase key) hkeys, rfl⟩
    · exact ⟨rfl, congrArg (·.erase key) hkeys, rfl⟩

theorem sealAll_congr (hlog : s.log = t.log) (hkeys : s.writer.openKeys = t.writer.openKeys)
    (keys : List Int) :
    (s.sealAll keys).1.log = (t.sealAll keys).1.log ∧
      (s.sealAll keys).1.writer.openKeys = (t.sealAll keys).1.writer.openKeys ∧
      (s.sealAll keys).2 = (t.sealAll keys).2 := by
  induction keys generalizing s t with
  | nil => exact ⟨hlog, hkeys, rfl⟩
  | cons key rest ih =>
    obtain ⟨hlog', hkeys', hsame⟩ := sealOpen_congr hlog hkeys key
    obtain ⟨hlogs, hopen, hmore⟩ := ih hlog' hkeys'
    refine ⟨hlogs, hopen, ?_⟩
    rw [sealAll, sealAll]
    simp only [hsame, hmore]

/-- A rotation depends only on the logs, on what counts as open and on the two reference
windows. -/
theorem rotated_congr (hlog : s.log = t.log) (hkeys : s.writer.openKeys = t.writer.openKeys)
    (hlast : s.writer.lastReference = t.writer.lastReference)
    (hreference : s.writer.reference now = t.writer.reference now') :
    (s.rotated now).log = (t.rotated now').log ∧
      (s.rotated now).writer.openKeys = (t.rotated now').writer.openKeys ∧
      ((s.begun now).rotate (s.writer.reference now)).2 =
        ((t.begun now').rotate (t.writer.reference now')).2 := by
  have hrotation : (s.begun now).rotationKeys (s.writer.reference now) =
      (t.begun now').rotationKeys (t.writer.reference now') := by
    change (if s.writer.lastReference = none ∨ s.writer.lastReference = some _ then [] else
      (s.writer.openKeys.filter _).toList) = _
    rw [hlast, hkeys, hreference]
    rfl
  unfold rotated
  rw [rotate_eq_sealAll, rotate_eq_sealAll, hrotation]
  exact sealAll_congr (s := s.begun now) (t := t.begun now') hlog hkeys _

/-- A drain in the reference window of the last one seals nothing. -/
theorem rotate_of_lastReference (h : s.writer.lastReference = some (s.writer.reference now)) :
    (s.begun now).rotate (s.writer.reference now) = (s.begun now, []) :=
  if_pos (Or.inr h)

end Rotation

end Ingestion

end RequestWindows
