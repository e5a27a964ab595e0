import RequestWindows.Proofs.Writer.Immutable
import RequestWindows.Proofs.Writer.Settled

namespace RequestWindows

namespace Ingestion

/-- Every window with an open log counts as open. -/
def Tracked (s : Ingestion) : Prop := ∀ k, s.log.logAt k false ≠ none → k ∈ s.writer.openKeys

/-- The reference window of a drain that finds the writer enabled and does not break off before its
cleanup. -/
def references (s : Ingestion) : Action → List Int
  | .drain now => if s.writer.enabled ∧ ¬s.BreaksOff now then [s.writer.reference now] else []
  | .put _ | .cleanup _ | .enable _ | .fail _ => []

variable {s : Ingestion} {past : List Int} {key k now : Int} {events : List Event}

section Tracking

theorem tracked_appendBatch (h : s.Tracked) : (s.appendBatch key events).1.Tracked := by
  intro k hk
  rw [mem_openKeys_appendBatch]
  obtain ⟨_, hsame | ⟨_, hne, _, hadd⟩⟩ := s.appendBatch_cases key events
  · rw [hsame] at hk
    exact Or.inl (h k hk)
  · rw [EventLog.logAt_of_addBytes hadd] at hk
    split at hk
    · next hkey => exact Or.inr ⟨hkey.1, hne⟩
    · exact Or.inl (h k hk)

theorem tracked_routed (h : (s.rotated now).Tracked) : (s.routed now).Tracked := by
  unfold Tracked
  rw [log_routed, openKeys_routed]
  exact tracked_appendBatch (s := s.halfRouted now) (tracked_appendBatch h)

/-- A window stops to count as open only when it has no open log any more. -/
theorem tracked_sealOpen (honce : s.log.SealedOnce past) (h : s.Tracked) :
    (s.sealOpen key).1.Tracked := by
  unfold sealOpen
  split
  · next j hseal => exact absurd hseal (honce.not_alreadySealed key j)
  · exact h
  · next log' renamed hseal =>
    have htracked : ∀ k, log'.logAt k false ≠ none → k ∈ s.writer.openKeys.erase key := by
      intro k hk
      rw [KeySet.mem_erase]
      rcases EventLog.sealWindow_cases hseal with ⟨_, rfl, hnone⟩ | ⟨_, _, _, e, _, hafter⟩
      · refine ⟨h k hk, ?_⟩
        rintro rfl
        exact hk hnone
      · rw [hafter] at hk
        by_cases hkey : k = key
        · rw [if_pos hkey] at hk
          exact absurd rfl hk
        · rw [if_neg hkey] at hk
          exact ⟨h k hk, hkey⟩
    cases renamed <;> exact htracked

theorem sealedOnce_sealOpen (honce : s.log.SealedOnce past) (key : Int) :
    ∃ past', (s.sealOpen key).1.log.SealedOnce past' := by
  obtain ⟨_, ⟨_, hsame⟩ | ⟨_, hseal⟩⟩ := s.sealOpen_cases key
  · rw [hsame]
    exact ⟨past, honce⟩
  · exact ⟨_, honce.seal hseal⟩

theorem tracked_sealAll {keys : List Int} (honce : s.log.SealedOnce past) (h : s.Tracked) :
    (s.sealAll keys).1.Tracked := by
  induction keys generalizing s past with
  | nil => exact h
  | cons key rest ih =>
    obtain ⟨past', honce'⟩ := sealedOnce_sealOpen honce key
    exact ih honce' (tracked_sealOpen honce h)

/-- What a cleanup deletes may stop to count as open, and what it fails to delete goes on to. -/
theorem tracked_cleanup (h : s.Tracked) (now : Int) : (s.cleanup now).1.Tracked := by
  have hcase := s.cleanup_cleanup now
  cases hc : s.cleanup now with
  | mk t outcome =>
    rw [hc] at hcase
    cases hcase with
    | unstarted _ => exact h
    | early _ _ => exact h
    | refused _ _ _ => exact h
    | @due last _ _ _ =>
      let keys := s.writer.interval.keysBetween (s.writer.interval.key last)
        (s.writer.retentionHorizon now)
      intro k hk
      change (s.log.delete keys).1.logAt k false ≠ none at hk
      obtain ⟨⟨gone, hgone⟩, _⟩ := s.log.delete_deleted keys
      have hleft : (s.log.delete keys).1.logAt k false = _ := hgone.left k false
      rw [hleft] at hk
      have hstays : (k, false) ∉ gone := by
        intro hmem
        rw [if_pos hmem] at hk
        exact hk rfl
      rw [if_neg hstays] at hk
      apply KeySet.mem_filter.mpr
      refine ⟨h k hk, decide_eq_true ?_⟩
      by_cases hmem : k ∈ keys
      · right
        apply Decidable.byContradiction
        intro hdeleted
        exact hstays (hgone.all_gone k hmem hdeleted false)
      · exact Or.inl hmem

theorem tracked_act {a : Action} (honce : s.log.SealedOnce past) (h : s.Tracked) :
    (s.act a).Tracked := by
  cases a with
  | put o => exact h
  | enable on => exact h
  | fail faults => exact h
  | cleanup now => exact tracked_cleanup h now
  | drain now =>
    change (s.drain now).1.Tracked
    by_cases hon : s.writer.enabled = true
    · have hrotated : (s.rotated now).Tracked := by
        unfold rotated
        rw [rotate_eq_sealAll]
        exact tracked_sealAll (s := s.begun now) honce h
      exact drain_cases (P := Tracked) now hon (fun _ => tracked_routed hrotated)
        fun _ => tracked_cleanup (tracked_routed hrotated) now
    · rw [drain_of_not_enabled now hon]
      exact h

theorem tracked_perform (hfresh : ∀ k b, s.log.logAt k b = none) (actions : List Action)
    (hclock : (drainTimes actions).Pairwise (· ≤ ·)) : (s.perform actions).Tracked := by
  induction actions using List.reverseRecOn with
  | nil =>
    intro k hk
    exact absurd (hfresh k false) hk
  | append_singleton earlier a ih =>
    rw [drainTimes_concat, List.pairwise_append] at hclock
    have honce := (sealedOnce_perform (fun k => hfresh k true) earlier hclock.1).1
    rw [perform_concat]
    exact tracked_act honce (ih hclock.1)

end Tracking

section Rotation

/-- The last reference window is that of the last drain that found the writer enabled and did not
break off. -/
theorem lastReference_perform (s : Ingestion) (actions : List Action) :
    (s.perform actions).writer.lastReference =
      (observe references s actions).getLast?.or s.writer.lastReference := by
  induction actions using List.reverseRecOn with
  | nil => rfl
  | append_singleton earlier a ih =>
    rw [perform_concat, observe_concat, List.getLast?_append, Option.or_assoc, ← ih]
    cases a with
    | drain now =>
      change ((s.perform earlier).drain now).1.writer.lastReference = _
      by_cases hon : (s.perform earlier).writer.enabled = true
      · by_cases hbreaks : (s.perform earlier).BreaksOff now
        · rw [drain_of_breaksOff now hon hbreaks, lastReference_routed, if_pos hbreaks, references,
            if_neg fun h => h.2 hbreaks]
          rfl
        · rw [drain_of_enabled now hon hbreaks, lastReference_cleanup, lastReference_routed,
            if_neg hbreaks, references, if_pos ⟨hon, hbreaks⟩]
          rfl
      · rw [drain_of_not_enabled now hon, references, if_neg fun h => hon h.1]
        rfl
    | cleanup now => exact lastReference_cleanup now
    | put o => rfl
    | enable on => rfl
    | fail faults => rfl

theorem logAt_sealOpen_of_ne (h : k ≠ key) (b : Bool) :
    (s.sealOpen key).1.log.logAt k b = s.log.logAt k b := by
  obtain ⟨_, ⟨_, hsame⟩ | ⟨_, hseal⟩⟩ := s.sealOpen_cases key
  · rw [hsame]
  · rcases EventLog.sealWindow_cases hseal with ⟨_, hsame, _⟩ | ⟨_, _, _, e, _, hafter⟩
    · rw [hsame]
    · rw [hafter, if_neg h]

theorem logAt_sealAll_of_not_mem {keys : List Int} (h : k ∉ keys) (b : Bool) :
    (s.sealAll keys).1.log.logAt k b = s.log.logAt k b := by
  induction keys generalizing s with
  | nil => rfl
  | cons key rest ih =>
    have hne : k ≠ key := fun heq => h (heq ▸ .head _)
    have hrest := ih (s := s.sealOpen key |>.1) fun hmem => h (.tail _ hmem)
    exact hrest.trans (logAt_sealOpen_of_ne hne b)

/-- A seal that does not fail leaves no open log; one that was there is the sealed log now. -/
theorem sealOpen_of_no_failure (h : ∀ e, s.log.sealWindow key ≠ .error e) :
    (s.sealOpen key).1.log.logAt key false = none ∧
      ∀ entry, s.log.logAt key false = some entry →
        (s.sealOpen key).2 = true ∧ (s.sealOpen key).1.log.logAt key true = some entry := by
  unfold sealOpen
  split
  · next hseal => exact absurd hseal (h _)
  · next hseal => exact absurd hseal (h _)
  · next log' renamed hseal =>
    rcases EventLog.sealWindow_cases hseal with ⟨rfl, rfl, hnone⟩ | ⟨rfl, _, _, e, he, hafter⟩
    · refine ⟨hnone, ?_⟩
      intro entry hentry
      rw [hnone] at hentry
      cases hentry
    · refine ⟨(hafter key false).trans (if_pos rfl), ?_⟩
      intro entry hentry
      rw [he] at hentry
      cases hentry
      exact ⟨rfl, (hafter key true).trans (if_pos rfl)⟩

theorem sealAll_of_no_failure {keys : List Int} (hnodup : keys.Nodup)
    (h : ∀ e, .error e ∉ s.trials keys) (hk : k ∈ keys) :
    (s.sealAll keys).1.log.logAt k false = none ∧
      ∀ entry, s.log.logAt k false = some entry →
        k ∈ (s.sealAll keys).2 ∧ (s.sealAll keys).1.log.logAt k true = some entry := by
  induction keys generalizing s with
  | nil => cases hk
  | cons key rest ih =>
    obtain ⟨hnew, hnodup⟩ := List.nodup_cons.mp hnodup
    have hlater : ∀ e, .error e ∉ (s.sealOpen key).1.trials rest :=
      fun e hmem => h e (.tail _ hmem)
    rw [sealAll]
    dsimp only
    -- The logs of a window change only in its own trial.
    rcases List.mem_cons.mp hk with rfl | hlate
    · have hown : ∀ e, s.log.sealWindow k ≠ .error e := by
        intro e he
        apply h e
        rw [trials, he]
        exact .head _
      obtain ⟨hnone, hsealed⟩ := sealOpen_of_no_failure hown
      refine ⟨(logAt_sealAll_of_not_mem hnew false).trans hnone, ?_⟩
      intro entry hentry
      obtain ⟨hyes, hlog⟩ := hsealed entry hentry
      simp only [hyes, if_true]
      exact ⟨.head _, (logAt_sealAll_of_not_mem hnew true).trans hlog⟩
    · have hne : k ≠ key := by
        rintro rfl
        exact hnew hlate
      obtain ⟨hnone, hsealed⟩ := ih hnodup hlater hlate
      refine ⟨hnone, ?_⟩
      intro entry hentry
      rw [← logAt_sealOpen_of_ne hne] at hentry
      obtain ⟨hmem, hlog⟩ := hsealed entry hentry
      refine ⟨?_, hlog⟩
      split
      · exact .tail _ hmem
      · exact hmem

/-- A rotation in which no seal fails comes to all windows that the reference window has left
behind. -/
theorem rotated_of_no_failure {last : Int} (htracked : s.Tracked) (hon : s.writer.enabled = true)
    (hlast : s.writer.lastReference = some last) (hmoved : last < s.writer.reference now)
    (hok : ∀ e, .error e ∉ s.drainTrials now) (hk : k < s.writer.reference now) :
    (s.rotated now).log.logAt k false = none ∧
      ∀ entry, s.log.logAt k false = some entry →
        k ∈ s.drainSeals now ∧ (s.rotated now).log.logAt k true = some entry := by
  have hkeys : (s.begun now).rotationKeys (s.writer.reference now) =
      (s.writer.openKeys.filter (· < s.writer.reference now)).toList := by
    apply if_neg
    change ¬(s.writer.lastReference = none ∨
      s.writer.lastReference = some (s.writer.reference now))
    rw [hlast]
    rintro (hnone | hsame)
    · cases hnone
    · exact absurd (Option.some.inj hsame) (Int.ne_of_lt hmoved)
  have htrials : ∀ e, .error e ∉ (s.begun now).trials
      (s.writer.openKeys.filter (· < s.writer.reference now)).toList := by
    rw [drainTrials, if_pos hon, hkeys] at hok
    exact hok
  rw [drainSeals, if_pos hon, rotated, rotate_eq_sealAll, hkeys]
  by_cases hopen : k ∈ s.writer.openKeys
  · have hmem : k ∈ (s.writer.openKeys.filter (· < s.writer.reference now)).toList :=
      KeySet.mem_filter.mpr ⟨hopen, decide_eq_true hk⟩
    exact sealAll_of_no_failure
      ((s.writer.openKeys.filter (· < s.writer.reference now)).ascending.imp Int.ne_of_lt)
      htrials hmem
  · have hnone : s.log.logAt k false = none := by
      apply Decidable.byContradiction
      intro hthere
      exact hopen (htracked k hthere)
    have hnot : k ∉ (s.writer.openKeys.filter (· < s.writer.reference now)).toList :=
      fun hmem => hopen (KeySet.mem_filter.mp hmem).1
    refine ⟨(logAt_sealAll_of_not_mem (s := s.begun now) hnot false).trans hnone, ?_⟩
    intro entry hentry
    rw [hnone] at hentry
    cases hentry

end Rotation

section Drains

theorem logAt_appendBatch_of_ne (h : k ≠ key) (b : Bool) :
    (s.appendBatch key events).1.log.logAt k b = s.log.logAt k b := by
  obtain ⟨_, hsame | ⟨_, _, _, hadd⟩⟩ := s.appendBatch_cases key events
  · rw [hsame]
  · rw [EventLog.logAt_of_addBytes hadd, if_neg fun hb => h hb.1]

/-- After its rotation, a drain writes to no window before the reference window. -/
theorem logAt_routed_of_lt (hk : k < s.writer.reference now) (b : Bool) :
    (s.routed now).log.logAt k b = (s.rotated now).log.logAt k b := by
  have hpos := s.writer.interval.pos
  have hcurrent : k ≠ s.writer.reference now := Int.ne_of_lt hk
  have hnext : k ≠ s.writer.reference now + s.writer.interval.millis := by omega
  have hhalf : (s.halfRouted now).log.logAt k b = (s.rotated now).log.logAt k b :=
    logAt_appendBatch_of_ne hcurrent b
  rw [log_routed]
  exact (logAt_appendBatch_of_ne (s := s.halfRouted now) hnext b).trans hhalf

theorem openLog_cleanup (h : s.log.logAt k false = none) :
    (s.cleanup now).1.log.logAt k false = none := by
  have hcase := s.cleanup_cleanup now
  cases hc : s.cleanup now with
  | mk t outcome =>
    rw [hc] at hcase
    cases hcase with
    | unstarted _ => exact h
    | early _ _ => exact h
    | refused _ _ _ => exact h
    | @due last _ _ _ =>
      obtain ⟨⟨gone, hgone⟩, _⟩ := s.log.delete_deleted (s.writer.interval.keysBetween
        (s.writer.interval.key last) (s.writer.retentionHorizon now))
      refine (hgone.left k false).trans ?_
      split
      · rfl
      · exact h

/-- A drain lists what it seals exactly when it does not break off and its cleanup is not
refused. -/
theorem mem_reportedSealed_iff (hon : s.writer.enabled = true) :
    k ∈ s.reportedSealed (.drain now) ↔
      k ∈ s.drainSeals now ∧ ¬s.BreaksOff now ∧
        ∃ deleted, ((s.routed now).cleanup now).2 = .ok deleted := by
  have hsealed (deleted : List Int) : s.drainSeals now = (s.report now deleted).sealed :=
    if_pos hon
  rw [reportedSealed]
  constructor
  · intro hk
    split at hk
    · next r hr =>
      obtain ⟨hwhole, hreport, hok⟩ := report_of_enabled now hon hr
      refine ⟨?_, hwhole, r.deleted, hok⟩
      rw [hsealed r.deleted, ← hreport]
      exact hk
    · cases hk
  · rintro ⟨hk, hwhole, deleted, hok⟩
    rw [drain_of_enabled now hon hwhole, hok]
    rw [hsealed deleted] at hk
    exact hk

theorem drainSeals_ascending (s : Ingestion) (now : Int) :
    (s.drainSeals now).Pairwise (· < ·) := by
  rw [drainSeals]
  split
  · rw [rotate_eq_sealAll]
    obtain ⟨_, _, hsub⟩ := (s.begun now).sealAll_seals
      ((s.begun now).rotationKeys (s.writer.reference now))
    apply List.Pairwise.sublist hsub
    rw [rotationKeys]
    split
    · exact .nil
    · exact KeySet.ascending _
  · exact .nil

end Drains

/-- Before a drain has come to its cleanup for the first time, none seals anything. -/
theorem drainSeals_of_no_reference (h : s.writer.lastReference = none) : s.drainSeals now = [] := by
  unfold drainSeals rotate
  split
  · exact congrArg Prod.snd (if_pos (Or.inl h))
  · rfl

/-- No open log is forgotten in a run whose drains do not go back in time. Every open log belongs to
a window that counts as open. A drain whose reference window lies after that of the last one that
did not break off, and in which no seal fails, seals every open log before its reference window as
it is, and lists it exactly when it does not break off and its cleanup is not refused; only that
cleanup can delete it. A drain before which all others broke off seals nothing. What a drain lists
ascends. -/
theorem open_logs_sealed (s : Ingestion) (actions : List Action)
    (hfresh : ∀ k b, s.log.logAt k b = none) (hclock : (drainTimes actions).Pairwise (· ≤ ·)) :
    (∀ k, (s.perform actions).log.logAt k false ≠ none →
      k ∈ (s.perform actions).writer.openKeys) ∧
    ∀ earlier now later, actions = earlier ++ .drain now :: later →
      (s.perform earlier).writer.enabled = true →
      ((s.perform earlier).reportedSealed (.drain now)).Pairwise (· < ·) ∧
      (s.writer.lastReference = none → observe references s earlier = [] →
        (s.perform earlier).drainSeals now = []) ∧
      ∀ last, (observe references s earlier).getLast? = some last → last < s.writer.reference now →
        (∀ e, .error e ∉ (s.perform earlier).drainTrials now) → ∀ k, k < s.writer.reference now →
        (s.perform (earlier ++ [.drain now])).log.logAt k false = none ∧
        ∀ entry, (s.perform earlier).log.logAt k false = some entry →
          ((s.perform earlier).routed now).log.logAt k true = some entry ∧
          ((s.perform (earlier ++ [.drain now])).log.logAt k true = some entry ∨
            (s.perform (earlier ++ [.drain now])).log.logAt k true = none ∧
              k < s.writer.retentionHorizon now) ∧
          (k ∈ (s.perform earlier).reportedSealed (.drain now) ↔
            ¬(s.perform earlier).BreaksOff now ∧
              ∃ deleted, (((s.perform earlier).routed now).cleanup now).2 = .ok deleted) := by
  refine ⟨tracked_perform hfresh actions hclock, ?_⟩
  rintro earlier now later rfl hon
  have hearlier : (drainTimes earlier).Pairwise (· ≤ ·) := by
    have hsplit : drainTimes (earlier ++ .drain now :: later) =
        drainTimes earlier ++ drainTimes (.drain now :: later) := List.filterMap_append
    rw [hsplit, List.pairwise_append] at hclock
    exact hclock.1
  have htracked := tracked_perform hfresh earlier hearlier
  refine ⟨(drainSeals_ascending _ now).sublist (reportedSealed_sublist _ (.drain now)), ?_, ?_⟩
  · intro hunstarted hnone
    apply drainSeals_of_no_reference
    rw [lastReference_perform, hnone, hunstarted]
    rfl
  -- The window was sealed by the rotation; neither the appends nor the cleanup come back to it.
  intro last hlast hmoved hok k hk
  have hreference : (s.perform earlier).writer.lastReference = some last := by
    rw [lastReference_perform, hlast]
    rfl
  rw [← reference_perform s earlier] at hmoved hk
  obtain ⟨hnone, hsealed⟩ := rotated_of_no_failure htracked hon hreference hmoved hok hk
  have hopen : ((s.perform earlier).routed now).log.logAt k false = none :=
    (logAt_routed_of_lt hk false).trans hnone
  rw [perform_concat]
  change ((s.perform earlier).drain now).1.log.logAt k false = none ∧ _
  refine ⟨drain_cases (P := fun t => t.log.logAt k false = none) now hon (fun _ => hopen)
    fun _ => openLog_cleanup hopen, ?_⟩
  intro entry hentry
  obtain ⟨hmem, hlog⟩ := hsealed entry hentry
  have hrouted := (logAt_routed_of_lt hk true).trans hlog
  refine ⟨hrouted, ?_, ?_⟩
  · refine drain_cases (P := fun t => t.log.logAt k true = some entry ∨
      t.log.logAt k true = none ∧ k < s.writer.retentionHorizon now) now hon
      (fun _ => Or.inl hrouted) fun _ => ?_
    rcases ((s.perform earlier).routed now).sealedLog_cleanup now k with hsame | ⟨hgone, last', h⟩
    · exact Or.inl (hsame.trans hrouted)
    · have hhorizon : ((s.perform earlier).routed now).writer.retentionHorizon now =
          s.writer.retentionHorizon now := by
        unfold Writer.retentionHorizon Writer.interval
        rw [settings_routed, settings_perform]
      rw [hhorizon] at h
      exact Or.inr ⟨hgone, h.2.2⟩
  · rw [mem_reportedSealed_iff hon]
    exact ⟨fun h => h.2, fun h => ⟨hmem, h⟩⟩

/-- A run up to the drain that comes after a failed seal. -/
def failedSeal : List Action := lateSeal.take 5

theorem failed_seal_is_made_up_for :
    (∀ k b, tenMillis.log.logAt k b = none) ∧ (drainTimes lateSeal).Pairwise (· ≤ ·) ∧
      lateSeal = failedSeal ++ .drain 35 :: lateSeal.drop 6 ∧
      (tenMillis.perform failedSeal).writer.enabled = true ∧
      (observe references tenMillis failedSeal).getLast? = some 10 ∧
      (10 : Int) < tenMillis.writer.reference 35 ∧
      (tenMillis.perform failedSeal).drainTrials 35 = [.ok true] ∧
      (tenMillis.perform failedSeal).log.logAt 0 false =
        some (.file (EventLog.linesOf [startAt 5])) ∧
      ((tenMillis.perform failedSeal).routed 35).log.logAt 0 true =
        some (.file (EventLog.linesOf [startAt 5])) ∧
      0 ∈ (tenMillis.perform failedSeal).reportedSealed (.drain 35) := by
  have hfresh : ∀ k b, tenMillis.log.logAt k b = none := by
    intro k b
    rfl
  have hclock : (drainTimes lateSeal).Pairwise (· ≤ ·) := by decide
  have hon : (tenMillis.perform failedSeal).writer.enabled = true := by decide +kernel
  have hlast : (observe references tenMillis failedSeal).getLast? = some 10 := by decide +kernel
  have hmoved : (10 : Int) < tenMillis.writer.reference 35 := by decide
  have htrials : (tenMillis.perform failedSeal).drainTrials 35 = [.ok true] := by decide +kernel
  have hopen : (tenMillis.perform failedSeal).log.logAt 0 false =
      some (.file (EventLog.linesOf [startAt 5])) := by decide +kernel
  have hcleanup : (((tenMillis.perform failedSeal).routed 35).cleanup 35).2 = .ok [0] := by
    decide +kernel
  obtain ⟨_, hdrains⟩ := open_logs_sealed tenMillis lateSeal hfresh hclock
  have hwhole : ¬(tenMillis.perform failedSeal).BreaksOff 35 := by decide +kernel
  obtain ⟨_, _, hlogs⟩ := hdrains failedSeal 35 (lateSeal.drop 6) rfl hon
  obtain ⟨_, hsealed⟩ := hlogs 10 hlast hmoved (by
    intro e he
    rw [htrials] at he
    cases List.mem_singleton.mp he) 0 (by decide)
  obtain ⟨hsealed, _, hlisted⟩ := hsealed _ hopen
  exact ⟨hfresh, hclock, rfl, hon, hlast, hmoved, htrials, hopen, hsealed,
    hlisted.mpr ⟨hwhole, [0], hcleanup⟩⟩

/-- A drain whose cleanup is refused lists nothing of what it has sealed. -/
theorem refused_cleanup_hides_seal :
    ¬∀ (s : Ingestion) (earlier : List Action) (now last k : Int),
      (∀ k b, s.log.logAt k b = none) → (drainTimes (earlier ++ [.drain now])).Pairwise (· ≤ ·) →
      (s.perform earlier).writer.enabled = true →
      (observe references s earlier).getLast? = some last → last < s.writer.reference now →
      (∀ e, .error e ∉ (s.perform earlier).drainTrials now) → k < s.writer.reference now →
      (s.perform earlier).log.logAt k false ≠ none →
      k ∈ (s.perform earlier).reportedSealed (.drain now) := by
  intro h
  have htrials : (tenMillis.perform firstWindow).drainTrials 92233720368547758120 = [.ok true] := by
    decide +kernel
  have hlisted := h tenMillis firstWindow 92233720368547758120 0 0 (fun _ _ => rfl) (by decide)
    (by decide +kernel) (by decide +kernel) (by decide)
    (by
      intro e he
      rw [htrials] at he
      cases List.mem_singleton.mp he)
    (by decide) (by decide +kernel)
  exact absurd hlisted (by decide +kernel)

end Ingestion

end RequestWindows
