import RequestWindows.Proofs.Writer.Faithful

namespace RequestWindows

namespace EventLog

/-- The name of a window's open log is too long for a file. -/
def TooLong (key : Int) : Prop := Directory.maxNameSize < (openName key).utf8ByteSize

instance (key : Int) : Decidable (TooLong key) := inferInstanceAs (Decidable (_ < _))

variable {log : EventLog} {d : Directory} {key : Int} {keys : List Int}

theorem size_logName_le (h : ¬TooLong key) (b : Bool) :
    (logName key b).utf8ByteSize ≤ Directory.maxNameSize := by
  have hopen : (openName key).utf8ByteSize ≤ Directory.maxNameSize := Nat.not_lt.mp h
  cases b with
  | false => exact hopen
  | true =>
    have hsize : (openName key).utf8ByteSize =
        (sealedName key).utf8ByteSize + openEnding.utf8ByteSize := String.utf8ByteSize_append
    change (sealedName key).utf8ByteSize ≤ Directory.maxNameSize
    omega

/-- Without failures to come, sealing fails where there is a sealed log already or a name is too
long. -/
theorem tooLong_of_sealWindow {e : LogError} (hfaults : log.faults = .none)
    (h : log.sealWindow key = .error e) (hother : ∀ j, e ≠ .alreadySealed j) : TooLong key := by
  apply Decidable.byContradiction
  intro hshort
  have hopen : log.directory.find (openName key) = .ok (log.logAt key false) :=
    log.find_logName (size_logName_le hshort false)
  have hsealed : log.directory.find (sealedName key) = .ok (log.logAt key true) :=
    log.find_logName (size_logName_le hshort true)
  have hallowed : key ∉ log.faults.seals := by
    rw [hfaults]
    exact List.not_mem_nil
  unfold sealWindow at h
  rw [if_neg hallowed, hopen, hsealed] at h
  cases ho : log.logAt key false with
  | none =>
    rw [ho] at h
    cases h
  | some entry =>
    cases hs : log.logAt key true with
    | none =>
      rw [ho, hs] at h
      cases h
    | some entry' =>
      rw [ho, hs] at h
      exact hother key (Except.error.inj h).symm

theorem deleteWindow_of_tooLong (h : TooLong key) (d : Directory) :
    (deleteWindow d key).2 = .failed := by
  have hrefused : ∀ d, removeIfPresent d (openName key) = .error .nameTooLong := by
    intro d
    have hfind : d.find (openName key) = .error .nameTooLong := if_pos h
    unfold removeIfPresent Directory.remove
    rw [hfind]
    rfl
  unfold deleteWindow
  cases removeIfPresent d (sealedName key) with
  | error e => rfl
  | ok r =>
    dsimp only
    rw [hrefused]

theorem mem_failed_deleteWindows (h : TooLong key) (hkey : key ∈ keys) :
    key ∈ (deleteWindows d keys).2.2 := by
  induction keys generalizing d with
  | nil => cases hkey
  | cons k rest ih =>
    rw [deleteWindows]
    rcases List.mem_cons.mp hkey with rfl | hrest
    · simp only [deleteWindow_of_tooLong h]
      exact .head _
    · have hlater := ih (d := (deleteWindow d k).1) hrest
      cases hout : (deleteWindow d k).2 <;> simp only [hout]
      · exact hlater
      · exact hlater
      · exact .tail _ hlater

/-- A log whose name is too long cannot be deleted. -/
theorem mem_failed_delete (h : TooLong key) (hkey : key ∈ keys) :
    key ∈ (log.delete keys).2.2 := by
  change key ∈ (deleteWindows log.directory (keys.filter (· ∉ log.faults.deletions))).2.2 ++
    keys.filter (· ∈ log.faults.deletions)
  rw [List.mem_append]
  by_cases hfault : key ∈ log.faults.deletions
  · exact Or.inr (List.mem_filter.mpr ⟨hkey, decide_eq_true hfault⟩)
  · exact Or.inl (mem_failed_deleteWindows h
      (List.mem_filter.mpr ⟨hkey, decide_eq_true hfault⟩))

end EventLog

namespace Ingestion

open EventLog (TooLong)

/-- No window before the one with key `r` counts as open, unless its log has a name that is too
long. -/
def OpenFrom (s : Ingestion) (r : Int) : Prop := ∀ k ∈ s.writer.openKeys, r ≤ k ∨ TooLong k

/-- No window before the last reference window counts as open, unless its log has a name that is too
long. -/
def Settled (s : Ingestion) : Prop :=
  ∀ k ∈ s.writer.openKeys, (∃ r, s.writer.lastReference = some r ∧ r ≤ k) ∨ TooLong k

variable {s : Ingestion} {key k now r : Int} {keys : List Int} {events : List Event}

section Rotate

theorem mem_openKeys_sealOpen (hfaults : s.log.faults = .none)
    (hk : k ∈ (s.sealOpen key).1.writer.openKeys) :
    k ∈ s.writer.openKeys ∧ (k ≠ key ∨ TooLong k) := by
  unfold sealOpen at hk
  split at hk
  · obtain ⟨hopen, hne⟩ := KeySet.mem_erase.mp hk
    exact ⟨hopen, Or.inl hne⟩
  · next e hother hseal =>
    refine ⟨hk, ?_⟩
    by_cases hkey : k = key
    · rw [hkey]
      exact Or.inr (EventLog.tooLong_of_sealWindow hfaults hseal hother)
    · exact Or.inl hkey
  · next log renamed hseal =>
    have herase : k ∈ s.writer.openKeys.erase key := by
      cases renamed <;> exact hk
    obtain ⟨hopen, hne⟩ := KeySet.mem_erase.mp herase
    exact ⟨hopen, Or.inl hne⟩

/-- A window that still counts as open after it was to be sealed has a log with too long a name. -/
theorem mem_openKeys_sealAll (hfaults : s.log.faults = .none)
    (hk : k ∈ (s.sealAll keys).1.writer.openKeys) :
    k ∈ s.writer.openKeys ∧ (k ∉ keys ∨ TooLong k) := by
  induction keys generalizing s with
  | nil => exact ⟨hk, Or.inl List.not_mem_nil⟩
  | cons key rest ih =>
    have hsame := (s.sealOpen_cases key).1.faults
    obtain ⟨hmiddle, hrest⟩ := ih (s := (s.sealOpen key).1) (hsame.trans hfaults) hk
    obtain ⟨hopen, hfirst⟩ := mem_openKeys_sealOpen hfaults hmiddle
    refine ⟨hopen, ?_⟩
    rcases hfirst with hne | hlong
    · refine hrest.imp_left fun hnot hmem => ?_
      exact (List.mem_cons.mp hmem).elim hne hnot
    · exact Or.inr hlong

/-- Sealing all windows before some point leaves none of them open, unless its log has too long a
name. -/
theorem openFrom_sealAll (hfaults : s.log.faults = .none) :
    (s.sealAll (s.writer.openKeys.filter (· < r)).toList).1.OpenFrom r := by
  intro k hk
  obtain ⟨hopen, hleft | hlong⟩ := mem_openKeys_sealAll hfaults hk
  · left
    apply Int.not_lt.mp
    intro hlt
    exact hleft (KeySet.mem_filter.mpr ⟨hopen, decide_eq_true hlt⟩)
  · exact Or.inr hlong

theorem mem_openKeys_of_rotated (hfaults : s.log.faults = .none)
    (hk : k ∈ (s.rotated now).writer.openKeys) : k ∈ s.writer.openKeys := by
  unfold rotated rotate at hk
  split at hk
  · exact hk
  · exact (mem_openKeys_sealAll (s := s.begun now) hfaults hk).1

theorem openFrom_rotated (hs : s.Settled) (hfaults : s.log.faults = .none) :
    (s.rotated now).OpenFrom (s.writer.reference now) := by
  intro k hk
  unfold rotated rotate at hk
  split at hk
  · next hlast =>
    -- Without a rotation the reference window is the last one, or there has been none.
    rcases hs k hk with ⟨r, hr, hle⟩ | hlong
    · rcases hlast with hnone | hsame
      · rw [show s.writer.lastReference = none from hnone] at hr
        cases hr
      · rw [show s.writer.lastReference = some _ from hsame] at hr
        cases hr
        exact Or.inl hle
    · exact Or.inr hlong
  · exact openFrom_sealAll (s := s.begun now) hfaults k hk

end Rotate

section Drain

theorem mem_openKeys_appendBatch :
    k ∈ (s.appendBatch key events).1.writer.openKeys ↔
      k ∈ s.writer.openKeys ∨ k = key ∧ events ≠ [] := by
  cases ht : s.appendBatch key events with
  | mk t n =>
    have hcase := s.appendBatch_appends key events
    rw [ht] at hcase
    cases hcase with
    | nothing hnil => simp [hnil]
    | lost hne _ _ =>
      change k ∈ s.writer.openKeys.insert key ↔ _
      rw [KeySet.mem_insert, or_comm, and_iff_left hne]
    | torn _ hbad =>
      have hne : events ≠ [] := by
        rintro rfl
        obtain ⟨e, he, _⟩ := hbad
        cases he
      change k ∈ s.writer.openKeys.insert key ↔ _
      rw [KeySet.mem_insert, or_comm, and_iff_left hne]
    | written hne _ =>
      change k ∈ s.writer.openKeys.insert key ↔ _
      rw [KeySet.mem_insert, or_comm, and_iff_left hne]

/-- After a drain the windows count as open that did before, and those that events were to be
appended for. -/
theorem mem_openKeys_routed :
    k ∈ (s.routed now).writer.openKeys ↔ k ∈ (s.rotated now).writer.openKeys ∨
      k = s.writer.reference now ∧ s.drainedFor (s.writer.reference now) ≠ [] ∨
      k = s.writer.reference now + s.writer.interval.millis ∧ s.upcoming now ≠ [] := by
  rw [openKeys_routed, appended, mem_openKeys_appendBatch, halfRouted, mem_openKeys_appendBatch,
    or_assoc]

theorem mem_openKeys_routed_of_whole (hwhole : ¬s.BreaksOff now) :
    k ∈ (s.routed now).writer.openKeys ↔ k ∈ (s.rotated now).writer.openKeys ∨
      (k = s.writer.reference now ∨ k = s.writer.reference now + s.writer.interval.millis) ∧
        s.drainedFor k ≠ [] := by
  rw [mem_openKeys_routed, upcoming, if_neg fun htorn => hwhole (Or.inl htorn), or_and_right]
  refine or_congr Iff.rfl (or_congr ?_ ?_)
  · exact and_congr_right fun h => by rw [h]
  · exact and_congr_right fun h => by rw [h]

theorem OpenFrom.routed (h : (s.rotated now).OpenFrom (s.writer.reference now)) :
    (s.routed now).OpenFrom (s.writer.reference now) := by
  intro k hk
  have hpos := s.writer.interval.pos
  rcases mem_openKeys_routed.mp hk with hopen | ⟨rfl, _⟩ | ⟨rfl, _⟩
  · exact h k hopen
  · exact Or.inl (Int.le_refl _)
  · exact Or.inl (by omega)

/-- A cleanup forgets no open window if there is none before its horizon but those that it cannot
delete. -/
theorem openKeys_cleanup (h : s.OpenFrom r) (hr : s.writer.retentionHorizon now ≤ r) :
    (s.cleanup now).1.writer.openKeys = s.writer.openKeys := by
  have hcase := s.cleanup_cleanup now
  cases hc : s.cleanup now with
  | mk t outcome =>
    rw [hc] at hcase
    cases hcase with
    | unstarted _ => rfl
    | early _ _ => rfl
    | refused _ _ _ => rfl
    | @due last _ _ _ =>
      let keys := s.writer.interval.keysBetween (s.writer.interval.key last)
        (s.writer.retentionHorizon now)
      change s.writer.openKeys.filter (fun k => k ∉ keys ∨ k ∈ (s.log.delete keys).2.2) = _
      ext1 k
      rw [KeySet.mem_filter, decide_eq_true_eq]
      refine and_iff_left_of_imp fun hk => ?_
      -- An open window before the horizon has a log that cannot be deleted either.
      rcases h k hk with hle | hlong
      · left
        intro hmem
        obtain ⟨_, _, hbefore⟩ := Interval.mem_keysBetween.mp hmem
        have hpos := s.writer.interval.pos
        omega
      · by_cases hmem : k ∈ keys
        · exact Or.inr (EventLog.mem_failed_delete hlong hmem)
        · exact Or.inl hmem

theorem mem_openKeys_of_cleanup (hk : k ∈ (s.cleanup now).1.writer.openKeys) :
    k ∈ s.writer.openKeys := by
  have hcase := s.cleanup_cleanup now
  cases hc : s.cleanup now with
  | mk t outcome =>
    rw [hc] at hcase hk
    cases hcase with
    | unstarted _ => exact hk
    | early _ _ => exact hk
    | refused _ _ _ => exact hk
    | due _ _ _ => exact (KeySet.mem_filter.mp hk).1

/-- A drain leaves the windows open that it leaves before its cleanup. -/
theorem openKeys_drain (hon : s.writer.enabled = true) (hwhole : ¬s.BreaksOff now) (hs : s.Settled)
    (hfaults : s.log.faults = .none) :
    (s.drain now).1.writer.openKeys = (s.routed now).writer.openKeys := by
  have hhorizon : (s.routed now).writer.retentionHorizon now ≤ s.writer.reference now := by
    unfold Writer.retentionHorizon Writer.interval
    rw [settings_routed]
    exact Int.le_of_lt (retentionHorizon_lt_reference s.writer now)
  rw [drain_of_enabled now hon hwhole]
  exact openKeys_cleanup (s := s.routed now) (openFrom_rotated hs hfaults).routed hhorizon

end Drain

theorem Settled.act {a : Action} (hs : s.Settled) (hfaults : s.log.faults = .none)
    (hfail : ∀ faults, a ≠ .fail faults) (hwhole : ¬s.Aborts a) :
    (s.act a).Settled ∧ (s.act a).log.faults = .none := by
  cases a with
  | put o => exact ⟨hs, hfaults⟩
  | enable on => exact ⟨hs, hfaults⟩
  | fail faults => exact absurd rfl (hfail faults)
  | cleanup now =>
    refine ⟨?_, (s.faults_cleanup now).trans hfaults⟩
    intro k hk
    change (∃ r, (s.cleanup now).1.writer.lastReference = some r ∧ r ≤ k) ∨ _
    rw [lastReference_cleanup]
    exact hs k (mem_openKeys_of_cleanup hk)
  | drain now =>
    refine ⟨?_, (s.faults_drain now).trans hfaults⟩
    intro k hk
    change k ∈ (s.drain now).1.writer.openKeys at hk
    change (∃ r, (s.drain now).1.writer.lastReference = some r ∧ r ≤ k) ∨ _
    -- What its rotation leaves open comes from the reference window on, which is the last one then.
    by_cases hon : s.writer.enabled = true
    · have hwhole : ¬s.BreaksOff now := fun hbreaks => hwhole ⟨hon, hbreaks⟩
      rw [openKeys_drain hon hwhole hs hfaults] at hk
      rw [drain_of_enabled now hon hwhole, lastReference_cleanup, lastReference_routed,
        if_neg hwhole]
      exact ((openFrom_rotated hs hfaults).routed k hk).imp_left fun hle => ⟨_, rfl, hle⟩
    · rw [drain_of_not_enabled now hon] at hk ⊢
      exact hs k hk

/-- In a run without failures that begins with an empty directory and in which no drain breaks off,
no window before the last reference window counts as open, unless its log has a name that is too
long. -/
theorem settled_perform (hbegins : s.Begins) (actions : List Action)
    (hfail : ∀ faults, .fail faults ∉ actions) (hwhole : observe aborted s actions = []) :
    (s.perform actions).Settled ∧ (s.perform actions).log.faults = .none := by
  -- Of the beginning only this is kept for the induction: later states have logs.
  have hstart : s.Settled ∧ s.log.faults = .none := by
    constructor
    · intro k hk
      rw [hbegins.openKeys] at hk
      exact absurd hk (KeySet.not_mem_empty k)
    · exact hbegins.faultless
  clear hbegins
  induction actions generalizing s with
  | nil => exact hstart
  | cons a rest ih =>
    rw [observe, List.append_eq_nil_iff] at hwhole
    apply ih (s := s.act a)
    · exact fun faults hmem => hfail faults (.tail _ hmem)
    · exact hwhole.2
    · exact hstart.1.act hstart.2 (fun faults heq => hfail faults (heq ▸ .head _))
        (aborted_eq_nil_iff.mp hwhole.1)

end Ingestion

end RequestWindows
