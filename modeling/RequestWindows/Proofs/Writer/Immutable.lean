import RequestWindows.Proofs.Writer.Retention

namespace RequestWindows

namespace EventLog

variable {log log' : EventLog} {key k : Int} {entry : Entry}

theorem sealedLog_of_addBytes {bytes : List UInt8} (h : log.addBytes key bytes = .ok log') :
    log'.logAt k true = log.logAt k true := by
  rw [logAt_of_addBytes h, if_neg]
  rintro ⟨_, hopen⟩
  cases hopen

/-- A log is sealed only under a name that nothing has yet. -/
theorem sealedLog_of_sealWindow (h : log.sealWindow key = .ok (log', true))
    (hk : log.logAt k true = some entry) : log'.logAt k true = some entry := by
  rcases sealWindow_cases h with ⟨hfalse, _⟩ | ⟨_, _, hfree, _, _, hafter⟩
  · cases hfalse
  have hne : k ≠ key := by
    rintro rfl
    rw [hfree] at hk
    cases hk
  rw [hafter, if_neg hne]
  exact hk

theorem sealedLog_of_seals {keys : List Int} (h : Ingestion.Seals log keys log')
    (hk : log.logAt k true = some entry) : log'.logAt k true = some entry := by
  induction h with
  | nil log => exact hk
  | cons first _ ih => exact ih (sealedLog_of_sealWindow first hk)

theorem sealedLog_of_delete (log : EventLog) (keys : List Int) (k : Int) :
    (log.delete keys).1.logAt k true = log.logAt k true ∨
      (log.delete keys).1.logAt k true = none ∧ k ∈ keys := by
  obtain ⟨⟨gone, hgone⟩, _⟩ := log.delete_deleted keys
  have hleft := hgone.left k true
  by_cases hmem : (k, true) ∈ gone
  · rw [if_pos hmem] at hleft
    exact Or.inr ⟨hleft, hgone.mem_keys _ hmem⟩
  · rw [if_neg hmem] at hleft
    exact Or.inl hleft

end EventLog

namespace Ingestion

/-- Whether a window lies where an action deletes logs: not before the window of the last horizon,
and before the windows that are young enough at the time. -/
def Expires (s : Ingestion) (a : Action) (k : Int) : Prop :=
  ∃ now last, (a = .drain now ∨ a = .cleanup now) ∧ s.writer.horizon = some last ∧
    s.writer.interval.key last ≤ k ∧ k < s.writer.retentionHorizon now

variable {s : Ingestion} {k : Int} {entry : Entry}

theorem sealedLog_appendBatch (key : Int) (events : List Event) :
    (s.appendBatch key events).1.log.logAt k true = s.log.logAt k true := by
  obtain ⟨_, hsame | ⟨_, _, _, hadd⟩⟩ := s.appendBatch_cases key events
  · rw [hsame]
  · exact EventLog.sealedLog_of_addBytes hadd

/-- Up to its cleanup, a drain leaves sealed logs alone. -/
theorem sealedLog_routed (now : Int) (h : s.log.logAt k true = some entry) :
    (s.routed now).log.logAt k true = some entry := by
  have hrotated : (s.rotated now).log.logAt k true = some entry :=
    EventLog.sealedLog_of_seals ((s.begun now).rotate_seals (s.writer.reference now)).2.1 h
  have hhalf : (s.halfRouted now).log.logAt k true = (s.rotated now).log.logAt k true :=
    sealedLog_appendBatch _ _
  have hrouted : (s.routed now).log.logAt k true = (s.halfRouted now).log.logAt k true := by
    rw [log_routed]
    exact sealedLog_appendBatch (s := s.halfRouted now) _ _
  rw [hrouted, hhalf, hrotated]

theorem sealedLog_cleanup (s : Ingestion) (now k : Int) :
    (s.cleanup now).1.log.logAt k true = s.log.logAt k true ∨
      (s.cleanup now).1.log.logAt k true = none ∧ ∃ last, s.writer.horizon = some last ∧
        s.writer.interval.key last ≤ k ∧ k < s.writer.retentionHorizon now := by
  have hcase := s.cleanup_cleanup now
  cases hc : s.cleanup now with
  | mk t outcome =>
    rw [hc] at hcase
    cases hcase with
    | unstarted _ => exact Or.inl rfl
    | early _ _ => exact Or.inl rfl
    | refused _ _ _ => exact Or.inl rfl
    | @due last hlast _ _ =>
      rcases s.log.sealedLog_of_delete (s.writer.interval.keysBetween
        (s.writer.interval.key last) (s.writer.retentionHorizon now)) k with hsame | ⟨hnone, hmem⟩
      · exact Or.inl hsame
      · right
        obtain ⟨n, hn, hle⟩ := Interval.mem_keysBetween.mp hmem
        have hpos := s.writer.interval.pos
        have hstart : s.writer.interval.key last ≤ k := by
          rw [hn]
          exact Interval.le_after n
        exact ⟨hnone, last, hlast, hstart, by omega⟩

/-- The first drain of a writer deletes nothing, as its horizon begins behind all logs that are old
enough. -/
theorem horizon_of_drain_deletes {now : Int}
    (h : ∃ last, (s.routed now).writer.horizon = some last ∧
      s.writer.interval.key last ≤ k ∧ k < s.writer.retentionHorizon now) :
    ∃ last, s.writer.horizon = some last ∧ s.writer.interval.key last ≤ k ∧
      k < s.writer.retentionHorizon now := by
  obtain ⟨last, hlast, hle, hlt⟩ := h
  rw [(s.onlyLogs_routed now).2.2.2.2.2.1] at hlast
  cases hold : s.writer.horizon with
  | some h =>
    rw [hold, Option.getD_some] at hlast
    exact ⟨last, hlast, hle, hlt⟩
  | none =>
    rw [hold, Option.getD_none] at hlast
    cases hlast
    have hkey := Interval.key_eq_self (aligned_reference s.writer now)
    have hbefore := retentionHorizon_lt_reference s.writer now
    omega

theorem sealedLog_act (a : Action) (h : s.log.logAt k true = some entry) :
    (s.act a).log.logAt k true = some entry ∨
      (s.act a).log.logAt k true = none ∧ s.Expires a k := by
  cases a with
  | put o => exact Or.inl h
  | enable on => exact Or.inl h
  | fail faults => exact Or.inl h
  | cleanup now =>
    rcases s.sealedLog_cleanup now k with hsame | ⟨hnone, last, hlast⟩
    · exact Or.inl (hsame.trans h)
    · exact Or.inr ⟨hnone, now, last, Or.inr rfl, hlast⟩
  | drain now =>
    change (s.drain now).1.log.logAt k true = _ ∨ (s.drain now).1.log.logAt k true = _ ∧ _
    by_cases hon : s.writer.enabled = true
    · refine drain_cases (P := fun t => t.log.logAt k true = some entry ∨
        t.log.logAt k true = none ∧ s.Expires (.drain now) k) now hon
        (fun _ => Or.inl (sealedLog_routed now h)) fun _ => ?_
      rcases (s.routed now).sealedLog_cleanup now k with hsame | ⟨hnone, hdeleted⟩
      · exact Or.inl (hsame.trans (sealedLog_routed now h))
      · unfold Writer.retentionHorizon Writer.interval at hdeleted
        rw [settings_routed] at hdeleted
        obtain ⟨last, hlast⟩ := horizon_of_drain_deletes hdeleted
        exact Or.inr ⟨hnone, now, last, Or.inl rfl, hlast⟩
    · rw [drain_of_not_enabled now hon]
      exact Or.inl h

/-- In a run of any state, every action leaves a sealed log as it is, or it deletes a log that it
finds between the last horizon and the windows that are young enough. A log that is never found
there is the same at the end of the run as at its beginning. -/
theorem sealed_log_stays (s : Ingestion) (actions : List Action) (k : Int) (bytes : List UInt8) :
    (∀ earlier a later, actions = earlier ++ a :: later →
      (s.perform earlier).log.logAt k true = some (.file bytes) →
      (s.perform (earlier ++ [a])).log.logAt k true = some (.file bytes) ∨
        (s.perform (earlier ++ [a])).log.logAt k true = none ∧ (s.perform earlier).Expires a k) ∧
    (s.log.logAt k true = some (.file bytes) →
      (∀ earlier a later, actions = earlier ++ a :: later → ¬(s.perform earlier).Expires a k) →
      (s.perform actions).log.logAt k true = some (.file bytes)) := by
  refine ⟨?_, ?_⟩
  · intro earlier a later _ h
    rw [perform_concat]
    exact sealedLog_act a h
  · intro h hyoung
    -- By induction on the run from its end; each action is one that may not delete the log.
    induction actions using List.reverseRecOn with
    | nil => exact h
    | append_singleton earlier a ih =>
      have hbefore := ih (by
        intro first b rest heq
        apply hyoung first b (rest ++ [a])
        rw [heq, List.append_assoc]
        rfl)
      rw [perform_concat]
      rcases sealedLog_act a hbefore with hsame | ⟨_, hexpires⟩
      · exact hsame
      · exact absurd hexpires (hyoung earlier a [] rfl)

/-- The clock goes back after the first window is sealed, and a late event opens it again. -/
def turnedBack : List Action :=
  [.put (.event (startAt 5)), .drain 15, .drain 25, .put (.event (startAt 7)), .drain 15]

theorem reopened_log_stays :
    (tenMillis.perform turnedBack).log.logAt 0 true =
        some (.file (EventLog.linesOf [startAt 5])) ∧
      (tenMillis.perform turnedBack).log.logAt 0 false =
        some (.file (EventLog.linesOf [startAt 7])) ∧
      (tenMillis.perform (turnedBack ++ [.drain 25])).log.logAt 0 true =
        some (.file (EventLog.linesOf [startAt 5])) := by
  have hsealed : (tenMillis.perform turnedBack).log.logAt 0 true =
      some (.file (EventLog.linesOf [startAt 5])) := by decide +kernel
  refine ⟨hsealed, by decide +kernel, ?_⟩
  obtain ⟨hstep, _⟩ := sealed_log_stays tenMillis (turnedBack ++ [.drain 25]) 0
    (EventLog.linesOf [startAt 5])
  rcases hstep turnedBack (.drain 25) [] rfl hsealed with hsame | ⟨_, now, last, hnow, _, _, hlt⟩
  · exact hsame
  · -- The retention horizon of the drain is the first window itself.
    rcases hnow with hnow | hnow
    · cases hnow
      exact absurd hlt (by decide +kernel)
    · cases hnow

end Ingestion

end RequestWindows
