import RequestWindows.Proofs.Writer.Timely

namespace RequestWindows.Ingestion

/-- The windows whose logs a cleanup asks to have deleted. -/
def requested (s : Ingestion) (now : Int) : List Int :=
  match s.writer.horizon with
  | none => []
  | some last =>
    let horizon := s.writer.retentionHorizon now
    let start := s.writer.interval.key last
    if horizon - last ≤ s.writer.settings.cleanupPeriod then []
    else if (CleanupError.ofCount? s.writer.settings.listLimit
        (s.writer.interval.countBetween start horizon)).isSome then []
    else s.writer.interval.keysBetween start horizon

/-- The windows whose logs an action asks to have deleted. -/
def requests (s : Ingestion) (a : Action) : List Int :=
  match s.cleaning? a with
  | some (t, now) => t.requested now
  | none => []

/-- Whether a cleanup deletes logs when the horizon has been at `last`: that is far enough behind,
and there are not too many windows to list. -/
def Due (s : Ingestion) (last now : Int) : Prop :=
  s.writer.settings.cleanupPeriod < s.writer.retentionHorizon now - last ∧
    s.writer.interval.countBetween last (s.writer.retentionHorizon now) < s.writer.listLimit

variable {s t u : Ingestion} {a b : Action} {first last now later k : Int}

section Cleanup

/-- A cleanup asks for nothing and changes nothing, or it deletes the windows that it asks for. -/
theorem cleanup_cases (s : Ingestion) (now : Int) :
    (s.requested now = [] ∧ s.deleteFailures now = [] ∧ (s.cleanup now).1 = s) ∨
      ∃ last, s.writer.horizon = some last ∧
        s.requested now = s.writer.interval.keysBetween (s.writer.interval.key last)
          (s.writer.retentionHorizon now) ∧
        s.deleteFailures now = (s.log.delete (s.requested now)).2.2 ∧
        (s.cleanup now).1 = (s.expire (s.requested now) (s.writer.retentionHorizon now)).1 := by
  have hcase := s.cleanup_cleanup now
  cases hc : s.cleanup now with
  | mk t outcome =>
    rw [hc] at hcase
    cases hcase with
    | unstarted h => exact Or.inl ⟨by rw [requested, h], by rw [deleteFailures, h], rfl⟩
    | early h hmoved =>
      left
      rw [requested, deleteFailures, h]
      dsimp only
      rw [if_pos hmoved, if_pos hmoved]
      exact ⟨rfl, rfl, rfl⟩
    | refused h hmoved hmany =>
      left
      rw [requested, deleteFailures, h]
      dsimp only
      rw [if_neg (Int.not_le.mpr hmoved), if_neg (Int.not_le.mpr hmoved), hmany]
      exact ⟨rfl, rfl, rfl⟩
    | @due last h hmoved hfew =>
      have hrequested : s.requested now = s.writer.interval.keysBetween
          (s.writer.interval.key last) (s.writer.retentionHorizon now) := by
        rw [requested, h]
        dsimp only
        rw [if_neg (Int.not_le.mpr hmoved), hfew]
        rfl
      rw [hrequested]
      exact Or.inr ⟨last, h, rfl, deleteFailures_of_due h hmoved hfew, rfl⟩

/-- From an aligned horizon on, all windows are asked for once that is due, and none before. -/
theorem requested_eq (now : Int) (hlast : s.writer.horizon = some last)
    (haligned : s.writer.interval.Aligned last) :
    (s.Due last now → s.requested now =
      s.writer.interval.keysBetween last (s.writer.retentionHorizon now)) ∧
      (¬s.Due last now → s.requested now = []) := by
  have hstart : s.writer.interval.key last = last := Interval.key_eq_self haligned
  rw [requested, hlast]
  dsimp only
  rw [hstart]
  constructor
  · rintro ⟨hmoved, hfew⟩
    rw [if_neg (Int.not_le.mpr hmoved), ofCount?_eq_none_iff.mpr hfew]
    rfl
  · intro hnot
    by_cases hmoved : s.writer.retentionHorizon now - last ≤ s.writer.settings.cleanupPeriod
    · rw [if_pos hmoved]
    · rw [if_neg hmoved, if_pos]
      rw [Option.isSome_iff_ne_none]
      intro hfew
      exact hnot ⟨Int.not_le.mp hmoved, ofCount?_eq_none_iff.mp hfew⟩

/-- What a cleanup asks for and does not report as failed is gone. -/
theorem logAt_cleanup (hk : k ∈ s.requested now) (hdone : k ∉ s.deleteFailures now)
    (kind : Bool) : (s.cleanup now).1.log.logAt k kind = none := by
  rcases s.cleanup_cases now with ⟨hnone, _⟩ | ⟨last, _, _, hfailures, hleft⟩
  · rw [hnone] at hk
    cases hk
  · obtain ⟨⟨gone, hgone⟩, _⟩ := s.log.delete_deleted (s.requested now)
    rw [hfailures] at hdone
    rw [hleft, log_expire]
    calc (s.log.delete (s.requested now)).1.logAt k kind
        = if (k, kind) ∈ gone then none else s.log.logAt k kind := hgone.left k kind
      _ = none := if_pos (hgone.all_gone k hk hdone kind)

/-- The failures of a cleanup are windows that lie before its horizon, and the first of them is
where the horizon stays. -/
theorem first_failure (h : s.deleteFailures now ≠ []) :
    ∃ first ∈ s.deleteFailures now, (s.cleanup now).1.writer.horizon = some first ∧
      ∀ k ∈ s.deleteFailures now, first ≤ k ∧ s.writer.interval.Aligned k ∧
        k + s.writer.interval.millis ≤ s.writer.retentionHorizon now := by
  rcases s.cleanup_cases now with ⟨_, hnone, _⟩ | ⟨last, _, hkeys, hfailures, hleft⟩
  · exact absurd hnone h
  have hhorizon : (s.cleanup now).1.writer.horizon =
      some ((least? (s.deleteFailures now)).getD (s.writer.retentionHorizon now)) := by
    rw [hleft, horizon_expire, hfailures]
  obtain ⟨k, hk⟩ := List.exists_mem_of_ne_nil _ h
  have hbefore : ∀ k ∈ s.deleteFailures now, s.writer.interval.Aligned k ∧
      k + s.writer.interval.millis ≤ s.writer.retentionHorizon now := by
    intro k hk
    obtain ⟨⟨gone, hgone⟩, _⟩ := s.log.delete_deleted (s.requested now)
    rw [hfailures] at hk
    have hasked := hgone.failed_mem k hk
    rw [hkeys] at hasked
    obtain ⟨n, rfl, hle⟩ := Interval.mem_keysBetween.mp hasked
    have haligned := s.writer.interval.aligned_key last
    unfold Interval.Aligned at haligned ⊢
    rw [Int.add_mul_emod_self_right]
    exact ⟨haligned, hle⟩
  have hmem : (least? (s.deleteFailures now)).getD (s.writer.retentionHorizon now) ∈
      s.deleteFailures now := by
    apply (least?_getD_mem _ _).resolve_left
    intro heq
    have hle : (least? (s.deleteFailures now)).getD (s.writer.retentionHorizon now) ≤ k :=
      least?_getD_le hk
    have hpos := s.writer.interval.pos
    have hlt := (hbefore k hk).2
    omega
  exact ⟨_, hmem, hhorizon, fun k hk => ⟨least?_getD_le hk, hbefore k hk⟩⟩

end Cleanup

section Waiting

theorem requests_of_cleaning? (h : s.cleaning? a = some (t, now)) :
    s.requests a = t.requested now := by
  rw [requests, h]

theorem interval_eq_of_settings (h : t.writer.settings = s.writer.settings) :
    t.writer.interval = s.writer.interval := congrArg WriterSettings.interval h

theorem retentionHorizon_eq_of_settings (h : t.writer.settings = s.writer.settings) (now : Int) :
    t.writer.retentionHorizon now = s.writer.retentionHorizon now := by
  unfold Writer.retentionHorizon Writer.interval
  rw [h]

theorem horizon_routed (hfirst : s.writer.horizon = some first) :
    (s.routed now).writer.horizon = some first := by
  obtain ⟨_, _, _, _, _, hhorizon, _⟩ := s.onlyLogs_routed now
  rw [hhorizon, hfirst, Option.getD_some]

/-- Up to the cleanup that an action comes to, the horizon stays. -/
theorem horizon_of_cleaning? (h : s.cleaning? a = some (t, now))
    (hfirst : s.writer.horizon = some first) : t.writer.horizon = some first := by
  rcases cleaning?_cases h with ⟨_, _, rfl⟩ | ⟨_, rfl⟩
  · exact horizon_routed hfirst
  · exact hfirst

theorem mem_times_of_cleaning? (h : s.cleaning? a = some (t, now)) : now ∈ times [a] := by
  rcases cleaning?_cases h with ⟨rfl, _⟩ | ⟨rfl, _⟩
  · exact .head _
  · exact .head _

/-- An action that asks for nothing leaves the horizon where it is, if there is a whole window
between it and the present one. -/
theorem horizon_act_of_idle (hfirst : s.writer.horizon = some first)
    (haligned : s.writer.interval.Aligned first)
    (hbehind : ∀ time ∈ times [a],
      first + s.writer.interval.millis ≤ s.writer.retentionHorizon time)
    (hidle : s.requests a = []) : (s.act a).writer.horizon = some first := by
  cases hcleaning : s.cleaning? a with
  | none =>
    cases a with
    | put o => exact hfirst
    | enable on => exact hfirst
    | fail faults => exact hfirst
    | cleanup now => cases hcleaning
    | drain now =>
      -- A drain that does not come to a cleanup has broken off, or it only counts.
      by_cases hon : s.writer.enabled = true
      · refine drain_cases (P := fun t => t.writer.horizon = some first) now hon
          (fun _ => horizon_routed hfirst) fun hwhole => ?_
        have haborts : ¬s.Aborts (.drain now) := fun h => hwhole h.2
        rw [cleaning?_of_not_aborts haborts, beforeCleanup?, if_pos hon] at hcleaning
        cases hcleaning
      · rw [act, drain_of_not_enabled now hon]
        exact hfirst
  | some r =>
    obtain ⟨t, now⟩ := r
    rw [requests_of_cleaning? hcleaning] at hidle
    have ht := horizon_of_cleaning? hcleaning hfirst
    have hsettings := settings_of_cleaning? hcleaning
    rw [act_of_cleaning? hcleaning]
    rcases t.cleanup_cases now with ⟨_, _, hsame⟩ | ⟨last, hlast, hkeys, _, _⟩
    · rw [hsame]
      exact ht
    · -- Otherwise the window at the horizon would have been asked for.
      have hbefore := hbehind now (mem_times_of_cleaning? hcleaning)
      have hasked : first ∈ t.requested now := by
        rw [hlast, Option.some.injEq] at ht
        rw [hkeys, ht, interval_eq_of_settings hsettings,
          retentionHorizon_eq_of_settings hsettings, Interval.key_eq_self haligned,
          Interval.mem_keysBetween]
        exact ⟨0, by omega, hbefore⟩
      rw [hidle] at hasked
      cases hasked

theorem horizon_perform_of_idle (between : List Action) (hfirst : s.writer.horizon = some first)
    (haligned : s.writer.interval.Aligned first)
    (hbehind : ∀ time ∈ times between,
      first + s.writer.interval.millis ≤ s.writer.retentionHorizon time)
    (hidle : observe requests s between = []) :
    (s.perform between).writer.horizon = some first := by
  induction between generalizing s with
  | nil => exact hfirst
  | cons a rest ih =>
    rw [observe, List.append_eq_nil_iff] at hidle
    have htimes : times (a :: rest) = times [a] ++ times rest := by
      rw [← List.singleton_append]
      exact List.filterMap_append
    rw [htimes] at hbehind
    have hsettings := s.settings_act a
    apply ih (s := s.act a)
    · exact horizon_act_of_idle hfirst haligned
        (fun time ht => hbehind time (List.mem_append_left _ ht)) hidle.1
    · rw [interval_eq_of_settings hsettings]
      exact haligned
    · intro time ht
      rw [interval_eq_of_settings hsettings, retentionHorizon_eq_of_settings hsettings]
      exact hbehind time (List.mem_append_right _ ht)
    · exact hidle.2

end Waiting

/-- A cleanup in which deletions fail, and the next action that comes to a cleanup, with none in
between that asks for anything. The first failure decides: if it lies far enough behind the horizon
of the next cleanup, and not too far, that asks for all failed windows, and otherwise for none at
all. A failed window that is asked for and does not fail again has no log then. -/
theorem failures_retried_iff_due (s : Ingestion) (a b : Action) (between : List Action)
    {t u : Ingestion} {now later : Int} (hfirst : s.cleaning? a = some (t, now))
    (hfailed : t.deleteFailures now ≠ []) (hidle : observe requests (s.act a) between = [])
    (hnext : ((s.act a).perform between).cleaning? b = some (u, later))
    (hclock : ∀ time ∈ times (between ++ [b]), now ≤ time) :
    ∃ first ∈ t.deleteFailures now, (∀ k ∈ t.deleteFailures now, first ≤ k) ∧
      ((∀ k ∈ t.deleteFailures now, k ∈ u.requested later) ↔ s.Due first later) ∧
      (¬s.Due first later → u.requested later = []) ∧
      ∀ k ∈ t.deleteFailures now, k ∈ u.requested later → k ∉ u.deleteFailures later →
        ∀ kind, (((s.act a).perform between).act b).log.logAt k kind = none := by
  obtain ⟨first, hmem, hhorizon, hall⟩ := first_failure hfailed
  have hsettings : t.writer.settings = s.writer.settings := settings_of_cleaning? hfirst
  have hact : (s.act a).writer.settings = s.writer.settings := s.settings_act a
  have hsettings' : u.writer.settings = s.writer.settings :=
    calc u.writer.settings
        = ((s.act a).perform between).writer.settings := settings_of_cleaning? hnext
      _ = (s.act a).writer.settings := (s.act a).settings_perform between
      _ = s.writer.settings := hact
  rw [interval_eq_of_settings hsettings, retentionHorizon_eq_of_settings hsettings] at hall
  rw [← act_of_cleaning? hfirst] at hhorizon
  have htimes : ∀ time ∈ times (between ++ [b]), ∀ k ∈ t.deleteFailures now,
      k + s.writer.interval.millis ≤ s.writer.retentionHorizon time := by
    intro time ht k hk
    exact Int.le_trans (hall k hk).2.2 (retentionHorizon_mono s.writer (hclock time ht))
  rw [times_concat] at htimes
  -- Until the next cleanup asks for something, the horizon waits at the first failure.
  have hwaits : ((s.act a).perform between).writer.horizon = some first := by
    apply horizon_perform_of_idle between hhorizon _ _ hidle
    · rw [interval_eq_of_settings hact]
      exact (hall first hmem).2.1
    · intro time ht
      rw [interval_eq_of_settings hact, retentionHorizon_eq_of_settings hact]
      exact htimes time (List.mem_append_left _ ht) first hmem
  have hu : u.writer.horizon = some first := horizon_of_cleaning? hnext hwaits
  have haligned : u.writer.interval.Aligned first := by
    rw [interval_eq_of_settings hsettings']
    exact (hall first hmem).2.1
  have hdue : u.Due first later ↔ s.Due first later := by
    unfold Due Writer.listLimit
    rw [hsettings', interval_eq_of_settings hsettings', retentionHorizon_eq_of_settings hsettings']
  obtain ⟨hasks, hnothing⟩ := requested_eq later hu haligned
  rw [hdue, interval_eq_of_settings hsettings', retentionHorizon_eq_of_settings hsettings'] at hasks
  rw [hdue] at hnothing
  refine ⟨first, hmem, fun k hk => (hall k hk).1, ⟨?_, ?_⟩, hnothing, ?_⟩
  · intro hasked
    apply Classical.byContradiction
    intro hnot
    have hnone := hasked first hmem
    rw [hnothing hnot] at hnone
    cases hnone
  -- All failed windows lie between the first of them and the earlier horizon, so before this one.
  · intro hyes k hk
    have hstop : s.writer.interval.Aligned (s.writer.retentionHorizon later) :=
      s.writer.interval.aligned_key _
    have hbefore := htimes later
      (List.mem_append_right _ (mem_times_of_cleaning? hnext)) k hk
    have hpos := s.writer.interval.pos
    rw [hasks hyes, Interval.mem_keysBetween_iff (hall first hmem).2.1 hstop]
    exact ⟨(hall k hk).2.1, (hall k hk).1, by omega⟩
  · intro k _ hasked hdone kind
    rw [act_of_cleaning? hnext]
    exact logAt_cleanup hasked hdone kind

/-- A deletion that fails once, when the horizon has moved by three windows. -/
theorem first_log_deleted_on_retry :
    let s := tenMillis.perform (firstWindow ++ [.fail { Faults.none with deletions := [0] }])
    let t := (s.cleanup 50).1.act (.fail .none)
    s.deleteFailures 50 = [0] ∧ t.requested 50 = [0, 10, 20] ∧
      s.log.HasLog 0 ∧ ∀ kind, (t.cleanup 50).1.log.logAt 0 kind = none := by
  intro s t
  have hfailed : s.deleteFailures 50 = [0] := by decide +kernel
  have hasked : t.requested 50 = [0, 10, 20] := by decide +kernel
  have hdone : t.deleteFailures 50 = [] := by decide +kernel
  obtain ⟨_, _, _, _, _, hgone⟩ := failures_retried_iff_due s (.cleanup 50) (.cleanup 50)
    [.fail .none] (t := s) (u := t) rfl (by rw [hfailed]; exact List.cons_ne_nil _ _)
    (by decide +kernel) rfl (by decide +kernel)
  have hafter : ((s.act (.cleanup 50)).perform [.fail .none]).act (.cleanup 50) =
      (t.cleanup 50).1 := rfl
  rw [hfailed, hasked, hdone, hafter] at hgone
  exact ⟨hfailed, hasked, ⟨false, EventLog.linesOf [startAt 5], by decide +kernel⟩,
    hgone 0 (.head _) (.head _) List.not_mem_nil⟩

/-- A writing side that cleans up when the horizon has moved by more than two windows. -/
def twoWindowsPeriod : Ingestion :=
  ⟨.empty 8, .empty,
    .create ⟨⟨10, ten_pos⟩, 1000, 0, 20, 20, .standard, two_windows_le⟩ true, .zero⟩

/-- After a failure so close to the horizon the next cleanup does not try again. -/
theorem late_failure_is_left :
    ¬∀ (s : Ingestion) (actions : List Action) (now later : Int),
      0 ≤ s.writer.settings.cleanupPeriod → s.writer.horizon = none →
      (∀ k, ¬s.log.HasLog k) → (times (actions ++ [.cleanup now])).Pairwise (· ≤ ·) →
      now ≤ later → ∀ k ∈ (s.perform actions).deleteFailures now,
        k ∈ ((s.perform actions).cleanup now).1.requested later := by
  intro h
  have hfresh : ∀ k, ¬twoWindowsPeriod.log.HasLog k := by
    rintro k ⟨b, bytes, h⟩
    cases h
  have hretried := h twoWindowsPeriod
    [.put (.event (startAt 5)), .drain 15, .put (.event (startAt 25)), .drain 35,
      .fail { Faults.none with deletions := [20] }] 50 50 (by decide) rfl hfresh
    (by decide) (Int.le_refl _) 20 (by decide +kernel)
  exact absurd hretried (by decide +kernel)

end RequestWindows.Ingestion
