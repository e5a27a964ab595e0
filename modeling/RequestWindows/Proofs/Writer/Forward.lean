import RequestWindows.Proofs.EventLog.Newest

namespace RequestWindows

namespace Ingestion

open EventLog (TooLong)

/-- No window that can still be sealed, at one of the times to come, is before the given one. -/
structure Passed (s : Ingestion) (coming : List Int) (k : Int) : Prop where
  openKeys : ∀ j ∈ s.writer.openKeys, k < j ∨ TooLong j
  references : ∀ t ∈ coming, k < s.writer.reference t

/-- What holds throughout a run without failures before the drains and cleanups of the times to
come: all sealed windows are passed, and no log is behind the horizon. -/
structure InOrder (s : Ingestion) (coming : List Int) : Prop where
  faultless : s.log.faults = .none
  tidy : s.log.directory.Tidy
  retained : s.Retained
  horizon : ∀ t ∈ coming, ∀ h, s.writer.horizon = some h → h ≤ s.writer.reference t
  passed : ∀ k, s.log.SealedAt k → s.Passed coming k

/-- A window that is the newest sealed one, or has been. None of the sealed windows up to it
outlasts it. -/
structure WasNewest (s : Ingestion) (coming : List Int) (b : Int) : Prop where
  passed : s.Passed coming b
  outlasts : ∀ k ≤ b, s.log.SealedAt k → s.log.SealedAt b

variable {s t : Ingestion} {a : Action} {b k key latest now : Int} {coming : List Int}
  {events : List Event}

section Newest

theorem reference_of_settings_eq (h : t.writer.settings = s.writer.settings) (now : Int) :
    t.writer.reference now = s.writer.reference now := by
  unfold Writer.reference Writer.interval
  rw [h]

theorem Passed.of_eq (h : s.Passed coming k) (hsettings : t.writer.settings = s.writer.settings)
    (hopen : t.writer.openKeys = s.writer.openKeys) : t.Passed coming k := by
  refine ⟨?_, ?_⟩
  · rw [hopen]
    exact h.openKeys
  · intro now hnow
    rw [reference_of_settings_eq hsettings]
    exact h.references now hnow

theorem InOrder.of_eq (h : s.InOrder coming) (hlog : t.log = s.log)
    (hsettings : t.writer.settings = s.writer.settings)
    (hhorizon : t.writer.horizon = s.writer.horizon)
    (hopen : t.writer.openKeys = s.writer.openKeys) : t.InOrder coming := by
  refine ⟨?_, ?_, ?_, ?_, ?_⟩
  · rw [hlog]
    exact h.faultless
  · rw [hlog]
    exact h.tidy
  · have hdirectory : t.log.directory = s.log.directory := congrArg EventLog.directory hlog
    have hadvances : s.Advances t [] := advances_of_eq h.retained hdirectory hsettings hhorizon
    exact hadvances.retained
  · intro now hnow
    rw [hhorizon, reference_of_settings_eq hsettings]
    exact h.horizon now hnow
  · rw [hlog]
    exact fun k hk => (h.passed k hk).of_eq hsettings hopen

theorem WasNewest.of_eq (hb : s.WasNewest coming b) (hlog : t.log = s.log)
    (hsettings : t.writer.settings = s.writer.settings)
    (hopen : t.writer.openKeys = s.writer.openKeys) : t.WasNewest coming b := by
  refine ⟨hb.passed.of_eq hsettings hopen, ?_⟩
  rw [hlog]
  exact hb.outlasts

theorem InOrder.newest (h : s.InOrder coming) (hlatest : s.log.latestSealed = .ok (some latest)) :
    s.log.SealedAt latest ∧ ∀ k, s.log.SealedAt k → k ≤ latest := by
  rcases EventLog.latestSealed_of_tidy h.tidy with ⟨hnone, _⟩ | ⟨k, hk, hsealed, hle⟩
  · rw [hnone] at hlatest
    cases hlatest
  · rw [hk] at hlatest
    cases hlatest
    exact ⟨hsealed, hle⟩

theorem InOrder.wasNewest (h : s.InOrder coming)
    (hlatest : s.log.latestSealed = .ok (some latest)) : s.WasNewest coming latest := by
  have hsealed := (h.newest hlatest).1
  exact ⟨h.passed latest hsealed, fun _ _ _ => hsealed⟩

/-- No window that has been the newest sealed one comes after the one that is. -/
theorem WasNewest.le_newest (hb : s.WasNewest coming b) (h : s.InOrder coming)
    (hlatest : s.log.latestSealed = .ok (some latest)) : b ≤ latest := by
  obtain ⟨hsealed, hle⟩ := h.newest hlatest
  apply Int.le_of_not_gt
  intro hlt
  -- Otherwise the window `b` would still be sealed as well, and be newer.
  have hb' := hle b (hb.outlasts latest (Int.le_of_lt hlt) hsealed)
  omega

end Newest

section Routed

theorem tidy_appendBatch (h : s.log.directory.Tidy) (hkey : events ≠ [] → 0 ≤ key) :
    (s.appendBatch key events).1.log.directory.Tidy := by
  obtain ⟨_, hsame | ⟨_, hne, _, hadd⟩⟩ := s.appendBatch_cases key events
  · rw [hsame]
    exact h
  · exact EventLog.tidy_addBytes h (hkey hne) hadd

theorem sealedAt_appendBatch_iff :
    (s.appendBatch key events).1.log.SealedAt k ↔ s.log.SealedAt k := by
  obtain ⟨_, hsame | ⟨_, _, _, hadd⟩⟩ := s.appendBatch_cases key events
  · rw [hsame]
  · exact EventLog.sealedAt_addBytes_iff hadd

/-- Events are drained only for windows from 0 on. -/
theorem nonneg_of_drainedFor (h : s.drainedFor key ≠ []) : 0 ≤ key := by
  obtain ⟨e, he⟩ := List.exists_mem_of_ne_nil _ h
  have hkey : e.window s.writer.interval = key := of_decide_eq_true (List.mem_filter.mp he).2
  rw [← hkey]
  exact s.writer.interval.key_nonneg (Int.natCast_nonneg _)

theorem drainedFor_ne_nil_of_upcoming (h : s.upcoming now ≠ []) :
    s.drainedFor (s.writer.reference now + s.writer.interval.millis) ≠ [] := by
  unfold upcoming at h
  split at h
  · exact absurd rfl h
  · exact h

theorem tidy_routed (h : s.log.directory.Tidy) (now : Int) :
    (s.routed now).log.directory.Tidy := by
  have hrotated : (s.rotated now).log.directory.Tidy :=
    EventLog.tidy_seals h ((s.begun now).rotate_seals (s.writer.reference now)).2.1
  have hhalf : (s.halfRouted now).log.directory.Tidy :=
    tidy_appendBatch hrotated nonneg_of_drainedFor
  rw [log_routed]
  exact tidy_appendBatch (s := s.halfRouted now) hhalf fun hne =>
    nonneg_of_drainedFor (drainedFor_ne_nil_of_upcoming hne)

/-- Up to its cleanup a drain adds to the sealed windows those that its rotation seals. -/
theorem sealedAt_routed_iff :
    (s.routed now).log.SealedAt k ↔
      s.log.SealedAt k ∨ k ∈ ((s.begun now).rotate (s.writer.reference now)).2 := by
  rw [log_routed]
  calc (s.appended now).log.SealedAt k
      ↔ (s.halfRouted now).log.SealedAt k := sealedAt_appendBatch_iff
    _ ↔ (s.rotated now).log.SealedAt k := sealedAt_appendBatch_iff
    _ ↔ _ := EventLog.sealedAt_seals_iff
      ((s.begun now).rotate_seals (s.writer.reference now)).2.1

/-- What a rotation seals counted as open before it. -/
theorem mem_openKeys_of_mem_rotate
    (hk : k ∈ ((s.begun now).rotate (s.writer.reference now)).2) : k ∈ s.writer.openKeys := by
  rw [rotate_eq_sealAll] at hk
  have htried := ((s.begun now).sealAll_seals _).2.2.subset hk
  unfold rotationKeys at htried
  split at htried
  · cases htried
  · exact (KeySet.mem_filter.mp htried).1

/-- A rotation that seals anything leaves no window before the reference window open. -/
theorem openFrom_of_mem_rotate (hfaults : s.log.faults = .none)
    (hk : k ∈ ((s.begun now).rotate (s.writer.reference now)).2) :
    (s.rotated now).OpenFrom (s.writer.reference now) := by
  intro j hj
  unfold rotated at hj
  unfold rotate at hj hk
  split at hj
  · next hsame =>
    rw [if_pos hsame] at hk
    cases hk
  · exact openFrom_sealAll (s := s.begun now) hfaults j hj

theorem reference_routed (s : Ingestion) (now t : Int) :
    (s.routed now).writer.reference t = s.writer.reference t :=
  reference_of_settings_eq (settings_routed now) t

/-- A window that a drain finds passed stays passed. -/
theorem Passed.routed (h : s.Passed (now :: coming) k) (hfaults : s.log.faults = .none) :
    (s.routed now).Passed coming k := by
  have hpos := s.writer.interval.pos
  have hnow := h.references now (.head _)
  refine ⟨?_, ?_⟩
  · intro j hj
    rcases mem_openKeys_routed.mp hj with hopen | ⟨rfl, _⟩ | ⟨rfl, _⟩
    · exact h.openKeys j (mem_openKeys_of_rotated hfaults hopen)
    · exact Or.inl hnow
    · exact Or.inl (by omega)
  · intro t ht
    rw [reference_routed]
    exact h.references t (.tail _ ht)

/-- What a drain seals is passed by it. -/
theorem passed_of_mem_rotate (hfaults : s.log.faults = .none) (hlater : ∀ t ∈ coming, now ≤ t)
    (hk : k ∈ ((s.begun now).rotate (s.writer.reference now)).2) :
    (s.routed now).Passed coming k := by
  have hbefore := ((s.begun now).rotate_seals (s.writer.reference now)).2.2.2 k hk
  refine ⟨?_, ?_⟩
  · intro j hj
    exact ((openFrom_of_mem_rotate hfaults hk).routed j hj).imp_left
      fun hle => Int.lt_of_lt_of_le hbefore hle
  · intro t ht
    rw [reference_routed]
    exact Int.lt_of_lt_of_le hbefore (reference_mono s.writer (hlater t ht))

theorem InOrder.routed (h : s.InOrder (now :: coming)) (hlater : ∀ t ∈ coming, now ≤ t) :
    (s.routed now).InOrder coming := by
  have hnow := h.horizon now (.head _)
  obtain ⟨_, _, _, _, _, hhorizon, hfaults⟩ := s.onlyLogs_routed now
  refine ⟨hfaults.trans h.faultless, tidy_routed h.tidy now, retained_routed h.retained hnow,
    ?_, ?_⟩
  · intro t ht last hlast
    rw [hhorizon] at hlast
    cases hlast
    rw [reference_routed]
    cases hh : s.writer.horizon with
    | none => exact reference_mono s.writer (hlater t ht)
    | some last => exact h.horizon t (.tail _ ht) last hh
  · intro k hk
    rcases sealedAt_routed_iff.mp hk with hold | hnew
    · exact (h.passed k hold).routed h.faultless
    · exact passed_of_mem_rotate h.faultless hlater hnew

theorem WasNewest.routed (hb : s.WasNewest (now :: coming) b) (h : s.InOrder (now :: coming))
    : (s.routed now).WasNewest coming b := by
  refine ⟨hb.passed.routed h.faultless, ?_⟩
  intro k hkb hk
  rcases sealedAt_routed_iff.mp hk with hold | hnew
  · exact sealedAt_routed_iff.mpr (Or.inl (hb.outlasts k hkb hold))
  · -- A window that is sealed only now was open, so `b` lies before it.
    rcases hb.passed.openKeys k (mem_openKeys_of_mem_rotate hnew) with hlt | hlong
    · omega
    · exact absurd hlong (EventLog.not_tooLong_of_sealedAt (tidy_routed h.tidy now) hk)

end Routed

section Cleanup

theorem tidy_cleanup (h : s.log.directory.Tidy) (now : Int) :
    (s.cleanup now).1.log.directory.Tidy := by
  have hcase := s.cleanup_cleanup now
  cases hc : s.cleanup now with
  | mk t outcome =>
    rw [hc] at hcase
    cases hcase with
    | unstarted _ => exact h
    | early _ _ => exact h
    | refused _ _ _ => exact h
    | due _ _ _ => exact EventLog.tidy_delete h _

/-- A cleanup takes the sealed windows before some point and no others. -/
theorem InOrder.sealedAt_cleanup (h : s.InOrder coming) (now : Int) :
    ∃ first, ∀ k, (s.cleanup now).1.log.SealedAt k ↔ s.log.SealedAt k ∧ first ≤ k := by
  -- Where nothing is deleted, no sealed window is before the horizon.
  have hstay : ∃ first, ∀ k, s.log.SealedAt k ↔ s.log.SealedAt k ∧ first ≤ k := by
    refine ⟨s.writer.horizon.getD 0, fun k => (and_iff_left_of_imp fun hk => ?_).symm⟩
    have hlog := EventLog.hasLog_of_sealedAt h.tidy hk
    cases hh : s.writer.horizon with
    | none => exact absurd hlog (h.retained.unstarted hh k)
    | some last => exact (h.retained.logs last hh k hlog).2
  have hcase := s.cleanup_cleanup now
  cases hc : s.cleanup now with
  | mk t outcome =>
    rw [hc] at hcase
    cases hcase with
    | unstarted _ => exact hstay
    | early _ _ => exact hstay
    | refused _ _ _ => exact hstay
    | @due last hlast _ _ =>
      have haligned := h.retained.aligned last hlast
      have hhorizon : s.writer.interval.Aligned (s.writer.retentionHorizon now) :=
        s.writer.interval.aligned_key _
      refine ⟨s.writer.retentionHorizon now, fun k => ?_⟩
      refine (EventLog.sealedAt_delete_iff h.tidy h.faultless).trans ?_
      refine and_congr_right fun hk => ?_
      obtain ⟨hk', hle⟩ := h.retained.logs last hlast k (EventLog.hasLog_of_sealedAt h.tidy hk)
      rw [Interval.key_eq_self haligned, Interval.mem_keysBetween_iff haligned hhorizon]
      constructor
      · intro hnot
        exact Int.le_of_not_gt fun hlt => hnot ⟨hk', hle, hlt⟩
      · rintro hfrom ⟨_, _, hlt⟩
        omega

theorem reference_cleanup (s : Ingestion) (now t : Int) :
    (s.cleanup now).1.writer.reference t = s.writer.reference t :=
  reference_of_settings_eq (s.settings_cleanup now) t

theorem Passed.cleanup (h : s.Passed coming k) (now : Int) : (s.cleanup now).1.Passed coming k := by
  refine ⟨fun j hj => h.openKeys j (mem_openKeys_of_cleanup hj), ?_⟩
  intro t ht
  rw [reference_cleanup]
  exact h.references t ht

/-- A cleanup moves the horizon to no time that is still to come. -/
theorem InOrder.cleanup (h : s.InOrder coming) (hperiod : 0 ≤ s.writer.settings.cleanupPeriod)
    (hlater : ∀ t ∈ coming, now ≤ t) : (s.cleanup now).1.InOrder coming := by
  obtain ⟨first, hsealed⟩ := h.sealedAt_cleanup now
  have hadvances := advances_cleanup h.retained hperiod now
  refine ⟨(s.faults_cleanup now).trans h.faultless, tidy_cleanup h.tidy now, hadvances.retained,
    ?_, fun k hk => (h.passed k ((hsealed k).mp hk).1).cleanup now⟩
  intro t ht last hlast
  rw [reference_cleanup]
  rcases hadvances.bounded last hlast with hold | ⟨t', ht', hle⟩
  · exact h.horizon t ht last hold
  · rw [List.mem_singleton.mp ht'] at hle
    exact Int.le_trans hle (reference_mono s.writer (hlater t ht))

theorem WasNewest.cleanup (hb : s.WasNewest coming b) (h : s.InOrder coming) (now : Int) :
    (s.cleanup now).1.WasNewest coming b := by
  obtain ⟨first, hsealed⟩ := h.sealedAt_cleanup now
  refine ⟨hb.passed.cleanup now, ?_⟩
  intro k hkb hk
  obtain ⟨hold, hfrom⟩ := (hsealed k).mp hk
  exact (hsealed b).mpr ⟨hb.outlasts k hkb hold, Int.le_trans hfrom hkb⟩

end Cleanup

section Runs

/-- Fewer times to come ask for less. -/
theorem Passed.of_subset {later : List Int} (h : s.Passed coming k) (hsub : later ⊆ coming) :
    s.Passed later k := ⟨h.openKeys, fun t ht => h.references t (hsub ht)⟩

theorem InOrder.of_subset {later : List Int} (h : s.InOrder coming) (hsub : later ⊆ coming) :
    s.InOrder later :=
  ⟨h.faultless, h.tidy, h.retained, fun t ht => h.horizon t (hsub ht),
    fun k hk => (h.passed k hk).of_subset hsub⟩

theorem WasNewest.of_subset {later : List Int} (h : s.WasNewest coming b) (hsub : later ⊆ coming) :
    s.WasNewest later b := ⟨h.passed.of_subset hsub, h.outlasts⟩

/-- The times of an action come before the others. -/
theorem InOrder.act (h : s.InOrder (times [a] ++ coming))
    (hperiod : 0 ≤ s.writer.settings.cleanupPeriod) (hfail : ∀ faults, a ≠ .fail faults)
    (hlater : ∀ now ∈ times [a], ∀ t ∈ coming, now ≤ t) :
    (s.act a).InOrder coming ∧
      ∀ b, s.WasNewest (times [a] ++ coming) b → (s.act a).WasNewest coming b := by
  have hsub : coming ⊆ times [a] ++ coming := List.subset_append_right _ _
  cases a with
  | put o => exact ⟨h.of_eq rfl rfl rfl rfl, fun b hb => hb.of_eq rfl rfl rfl⟩
  | enable on => exact ⟨h.of_eq rfl rfl rfl rfl, fun b hb => hb.of_eq rfl rfl rfl⟩
  | fail faults => exact absurd rfl (hfail faults)
  | cleanup now =>
    have hnow := hlater now (.head _)
    exact ⟨(h.of_subset hsub).cleanup hperiod hnow,
      fun b hb => (hb.of_subset hsub).cleanup (h.of_subset hsub) now⟩
  | drain now =>
    have hnow := hlater now (.head _)
    change (s.drain now).1.InOrder coming ∧
      ∀ b, s.WasNewest (now :: coming) b → (s.drain now).1.WasNewest coming b
    -- A drain that breaks off has no cleanup, but what it did before that is in order.
    by_cases hon : s.writer.enabled = true
    · have hrouted := InOrder.routed h hnow
      have hperiod' : 0 ≤ (s.routed now).writer.settings.cleanupPeriod := by
        rw [settings_routed]
        exact hperiod
      exact drain_cases (P := fun t => t.InOrder coming ∧
          ∀ b, s.WasNewest (now :: coming) b → t.WasNewest coming b) now hon
        (fun _ => ⟨hrouted, fun b hb => hb.routed h⟩)
        fun _ => ⟨hrouted.cleanup hperiod' hnow, fun b hb => (hb.routed h).cleanup hrouted now⟩
    · rw [drain_of_not_enabled now hon]
      exact ⟨(h.of_subset hsub).of_eq rfl rfl rfl rfl,
        fun b hb => (hb.of_subset hsub).of_eq rfl rfl rfl⟩

theorem Begins.inOrder (h : s.Begins) (hhorizon : s.writer.horizon = none) (coming : List Int) :
    s.InOrder coming := by
  have hnothing (k : Int) (b : Bool) : s.log.logAt k b = none := by
    unfold EventLog.logAt
    rw [h.directory]
    rfl
  refine ⟨h.faultless, ?_, ⟨?_, ?_, ?_⟩, ?_, ?_⟩
  · rw [h.directory]
    exact Directory.tidy_empty
  · rintro - k ⟨b, bytes, hlog⟩
    rw [hnothing] at hlog
    cases hlog
  · intro last hlast
    rw [hhorizon] at hlast
    cases hlast
  · intro last hlast
    rw [hhorizon] at hlast
    cases hlast
  · intro t _ last hlast
    rw [hhorizon] at hlast
    cases hlast
  · intro k hk
    exact absurd (hnothing k true) hk

end Runs

end Ingestion

end RequestWindows
