import Mathlib.Data.List.Induction
import RequestWindows.Proofs.Window
import RequestWindows.Proofs.Writer.Run

namespace RequestWindows

namespace EventLog

/-- Whether a window has a log, open or sealed. -/
def HasLog (log : EventLog) (key : Int) : Prop := ∃ b bytes, log.logAt key b = some (.file bytes)

/-- No log of a window has lost anything: what was sealed is the same, and what was open may have
been added to and sealed. -/
def Keeps (log log' : EventLog) (key : Int) : Prop :=
  ∀ b bytes, log.logAt key b = some (.file bytes) →
    ∃ c more, log'.logAt key c = some (.file (bytes ++ more)) ∧ (b = true → c = true ∧ more = [])

variable {log log' log'' : EventLog} {key k : Int} {bytes : List UInt8} {keys : List Int}

theorem Keeps.refl (log : EventLog) (key : Int) : log.Keeps log key := by
  intro b bytes h
  refine ⟨b, [], ?_, fun hb => ⟨hb, rfl⟩⟩
  rw [List.append_nil]
  exact h

theorem Keeps.of_eq (h : log'.directory = log.directory) : log.Keeps log' key := by
  intro b bytes hb
  refine ⟨b, [], ?_, fun hb => ⟨hb, rfl⟩⟩
  rw [List.append_nil]
  unfold logAt at hb ⊢
  rw [h]
  exact hb

theorem Keeps.trans (h₁ : log.Keeps log' key) (h₂ : log'.Keeps log'' key) :
    log.Keeps log'' key := by
  intro b bytes hb
  obtain ⟨c, more, hc, hsealed⟩ := h₁ b bytes hb
  obtain ⟨d, more', hd, hsealed'⟩ := h₂ c (bytes ++ more) hc
  refine ⟨d, more ++ more', ?_, ?_⟩
  · rw [← List.append_assoc]
    exact hd
  · intro htrue
    obtain ⟨hc', rfl⟩ := hsealed htrue
    obtain ⟨hd', rfl⟩ := hsealed' hc'
    exact ⟨hd', rfl⟩

theorem keeps_addBytes (h : log.addBytes key bytes = .ok log') : log.Keeps log' k := by
  intro b before hb
  have hafter := logAt_of_addBytes h k b
  by_cases hk : k = key ∧ b = false
  · rw [if_pos hk] at hafter
    obtain ⟨rfl, rfl⟩ := hk
    have hbytes : log.bytesOf k false = before := by
      unfold bytesOf
      rw [hb]
    rw [hbytes] at hafter
    exact ⟨false, bytes, hafter, fun hf => Bool.noConfusion hf⟩
  · rw [if_neg hk, hb] at hafter
    refine ⟨b, [], ?_, fun hb => ⟨hb, rfl⟩⟩
    rw [List.append_nil]
    exact hafter

theorem keeps_sealWindow (h : log.sealWindow key = .ok (log', true)) : log.Keeps log' k := by
  rcases sealWindow_cases h with ⟨hfalse, _⟩ | ⟨_, _, hfree, e, he, hafter⟩
  · cases hfalse
  intro b bytes hb
  by_cases hk : k = key
  · subst hk
    cases b with
    | true =>
      rw [hfree] at hb
      cases hb
    | false =>
      rw [he] at hb
      refine ⟨true, [], ?_, fun hf => Bool.noConfusion hf⟩
      rw [hafter, if_pos rfl, if_pos rfl, List.append_nil]
      exact hb
  · refine ⟨b, [], ?_, fun hb => ⟨hb, rfl⟩⟩
    rw [hafter, if_neg hk, List.append_nil]
    exact hb

theorem keeps_seals (h : Ingestion.Seals log keys log') : log.Keeps log' k := by
  induction h with
  | nil log => exact Keeps.refl log k
  | cons first _ ih => exact (keeps_sealWindow first).trans ih

theorem keeps_delete (log : EventLog) (hk : k ∉ keys) : log.Keeps (log.delete keys).1 k := by
  obtain ⟨⟨gone, hgone⟩, _⟩ := log.delete_deleted keys
  intro b bytes hb
  have hleft := hgone.left k b
  rw [if_neg (fun hmem => hk (hgone.mem_keys _ hmem))] at hleft
  refine ⟨b, [], ?_, fun hb => ⟨hb, rfl⟩⟩
  rw [List.append_nil]
  exact hleft.trans hb

theorem hasLog_of_addBytes (h : log.addBytes key bytes = .ok log') (hk : log'.HasLog k) :
    log.HasLog k ∨ k = key := by
  obtain ⟨b, content, hb⟩ := hk
  rw [logAt_of_addBytes h] at hb
  split at hb
  · next heq => exact Or.inr heq.1
  · exact Or.inl ⟨b, content, hb⟩

theorem hasLog_of_sealWindow (h : log.sealWindow key = .ok (log', true)) (hk : log'.HasLog k) :
    log.HasLog k := by
  rcases sealWindow_cases h with ⟨hfalse, _⟩ | ⟨_, _, _, e, he, hafter⟩
  · cases hfalse
  obtain ⟨b, bytes, hb⟩ := hk
  rw [hafter] at hb
  split at hb
  · next heq =>
    split at hb
    · cases hb
      exact ⟨false, bytes, heq ▸ he⟩
    · cases hb
  · exact ⟨b, bytes, hb⟩

theorem hasLog_of_seals (h : Ingestion.Seals log keys log') (hk : log'.HasLog k) :
    log.HasLog k := by
  induction h with
  | nil log => exact hk
  | cons first _ ih => exact hasLog_of_sealWindow first (ih hk)

/-- A log that is left by a deletion is one of another window or one that could not be deleted. -/
theorem hasLog_of_delete (hk : (log.delete keys).1.HasLog k) :
    log.HasLog k ∧ (k ∈ keys → k ∈ (log.delete keys).2.2) := by
  obtain ⟨⟨gone, hgone⟩, _⟩ := log.delete_deleted keys
  obtain ⟨b, bytes, hb⟩ := hk
  have hleft := (hgone.left k b).symm.trans hb
  by_cases hmem : (k, b) ∈ gone
  · rw [if_pos hmem] at hleft
    cases hleft
  · rw [if_neg hmem] at hleft
    refine ⟨⟨b, bytes, hleft⟩, ?_⟩
    intro hkeys
    apply Classical.byContradiction
    intro hnot
    exact hmem (hgone.all_gone k hkeys hnot b)

end EventLog

namespace Ingestion

section Early

variable {s : Ingestion} {k : Int}

theorem keeps_appendBatch (key : Int) (events : List Event) :
    s.log.Keeps (s.appendBatch key events).1.log k := by
  obtain ⟨_, hsame | ⟨_, _, _, hadd⟩⟩ := s.appendBatch_cases key events
  · exact EventLog.Keeps.of_eq (congrArg EventLog.directory hsame)
  · exact EventLog.keeps_addBytes hadd

theorem keeps_routed (now : Int) : s.log.Keeps (s.routed now).log k := by
  have hrotated : s.log.Keeps (s.rotated now).log k :=
    EventLog.keeps_seals ((s.begun now).rotate_seals (s.writer.reference now)).2.1
  have hhalf : (s.rotated now).log.Keeps (s.halfRouted now).log k := keeps_appendBatch _ _
  have hrouted : (s.halfRouted now).log.Keeps (s.routed now).log k := by
    rw [log_routed]
    exact keeps_appendBatch _ _
  exact (hrotated.trans hhalf).trans hrouted

/-- A cleanup deletes only logs that are old enough. -/
theorem cleanup_spares (now : Int)
    (hk : now < k + s.writer.interval.millis + s.writer.settings.retention) :
    s.log.Keeps (s.cleanup now).1.log k ∧ ∀ deleted, (s.cleanup now).2 = .ok deleted →
      k ∉ deleted := by
  -- Only a cleanup that is due deletes anything, and only windows before its horizon.
  have hcase := s.cleanup_cleanup now
  cases hc : s.cleanup now with
  | mk t outcome =>
    rw [hc] at hcase
    cases hcase with
    | unstarted _ =>
      refine ⟨EventLog.Keeps.refl _ _, ?_⟩
      intro deleted hd
      cases hd
      exact List.not_mem_nil
    | early _ _ =>
      refine ⟨EventLog.Keeps.refl _ _, ?_⟩
      intro deleted hd
      cases hd
      exact List.not_mem_nil
    | refused _ _ _ =>
      refine ⟨EventLog.Keeps.refl _ _, ?_⟩
      intro deleted hd
      cases hd
    | @due last _ _ _ =>
      have hnot : k ∉ s.writer.interval.keysBetween (s.writer.interval.key last)
          (s.writer.retentionHorizon now) := by
        intro hmem
        have hold := s.le_of_mem_keysBetween hmem
        omega
      refine ⟨s.log.keeps_delete hnot, ?_⟩
      intro deleted hd hmem
      cases hd
      exact hnot ((s.log.delete_deleted _).2 k hmem)

theorem settings_routed (now : Int) :
    (s.routed now).writer.settings = s.writer.settings := (s.onlyLogs_routed now).2.2.2.1

/-- A drain deletes only logs that are old enough. -/
theorem drain_spares (now : Int)
    (hk : now < k + s.writer.interval.millis + s.writer.settings.retention) :
    s.log.Keeps (s.drain now).1.log k ∧ ∀ r, (s.drain now).2 = .ok r → k ∉ r.deleted := by
  by_cases hon : s.writer.enabled = true
  · have hk' : now < k + (s.routed now).writer.interval.millis +
        (s.routed now).writer.settings.retention := by
      unfold Writer.interval
      rw [settings_routed]
      exact hk
    obtain ⟨hkeeps, hdeleted⟩ := cleanup_spares now hk'
    refine ⟨drain_cases (P := fun t => s.log.Keeps t.log k) now hon (fun _ => keeps_routed now)
      fun _ => (keeps_routed now).trans hkeeps, ?_⟩
    intro r hr
    exact hdeleted r.deleted (report_of_enabled now hon hr).2.2
  · rw [drain_of_not_enabled now hon]
    refine ⟨EventLog.Keeps.refl _ _, ?_⟩
    intro r hr
    rw [(report_of_not_enabled now hon hr).2]
    exact List.not_mem_nil

/-- The windows that a drain writes to are never old enough. -/
theorem lt_of_reference_le {w : Writer} {now : Int} (h : w.reference now ≤ k) :
    now < k + w.interval.millis + w.settings.retention := by
  have hlt := w.interval.lt_key_add now
  have hretention := w.settings.retention_ge
  have hpos := w.interval.pos
  unfold Writer.reference at h
  unfold Writer.interval at *
  omega

end Early

section Horizon

variable {s : Ingestion} {h k now : Int}

theorem least?_eq_min? (l : List Int) : least? l = l.min? := by
  cases l <;> rfl

/-- What cannot be deleted is where the horizon stays. -/
theorem least?_getD_le {failed : List Int} {horizon : Int} (hk : k ∈ failed) :
    (least? failed).getD horizon ≤ k := by
  cases hl : least? failed with
  | none =>
    rw [least?_eq_min?, List.min?_eq_none_iff] at hl
    rw [hl] at hk
    cases hk
  | some m =>
    rw [least?_eq_min?] at hl
    exact (List.min?_eq_some_iff.mp hl).2 k hk

theorem least?_getD_mem (failed : List Int) (horizon : Int) :
    (least? failed).getD horizon = horizon ∨ (least? failed).getD horizon ∈ failed := by
  cases hl : least? failed with
  | none => exact Or.inl rfl
  | some m =>
    rw [least?_eq_min?] at hl
    exact Or.inr (List.min?_eq_some_iff.mp hl).1

theorem retentionHorizon_lt_reference (w : Writer) (now : Int) :
    w.retentionHorizon now < w.reference now := by
  have hkey := w.interval.key_le (now - w.settings.retention)
  have hlt := w.interval.lt_key_add now
  have hretention := w.settings.retention_ge
  unfold Writer.retentionHorizon Writer.reference
  unfold Writer.interval at *
  omega

/-- The horizon is that of a window, and no log is behind it. -/
structure Retained (s : Ingestion) : Prop where
  unstarted : s.writer.horizon = none → ∀ k, ¬s.log.HasLog k
  aligned : ∀ h, s.writer.horizon = some h → s.writer.interval.Aligned h
  logs : ∀ h, s.writer.horizon = some h → ∀ k, s.log.HasLog k →
    s.writer.interval.Aligned k ∧ h ≤ k

/-- What is left when the logs of all windows between the two horizons are to be deleted. -/
theorem retained_expire (now : Int) {last : Int} (hs : s.Retained)
    (hlast : s.writer.horizon = some last)
    (hmoved : last ≤ s.writer.retentionHorizon now) :
    let horizon := s.writer.retentionHorizon now
    let t := (s.expire (s.writer.interval.keysBetween (s.writer.interval.key last) horizon)
      horizon).1
    t.Retained ∧ ∃ h, t.writer.horizon = some h ∧ last ≤ h ∧ h ≤ horizon := by
  intro horizon t
  let keys := s.writer.interval.keysBetween (s.writer.interval.key last) horizon
  let failed := (s.log.delete keys).2.2
  have hal : s.writer.interval.Aligned last := hs.aligned last hlast
  have hstart : s.writer.interval.key last = last := Interval.key_eq_self hal
  have hhorizon : s.writer.interval.Aligned horizon := s.writer.interval.aligned_key _
  have hsub : ∀ k ∈ failed, k ∈ keys := by
    obtain ⟨⟨gone, hgone⟩, _⟩ := s.log.delete_deleted keys
    exact hgone.failed_mem
  -- The keys between the horizons are those of windows.
  have hkeys (k : Int) : k ∈ keys ↔ s.writer.interval.Aligned k ∧ last ≤ k ∧ k < horizon := by
    change k ∈ s.writer.interval.keysBetween (s.writer.interval.key last) horizon ↔ _
    rw [hstart]
    exact Interval.mem_keysBetween_iff hal hhorizon
  have hreached : s.writer.interval.Aligned ((least? failed).getD horizon) ∧
      last ≤ (least? failed).getD horizon ∧ (least? failed).getD horizon ≤ horizon := by
    rcases least?_getD_mem failed horizon with heq | hmem
    · rw [heq]
      exact ⟨hhorizon, hmoved, Int.le_refl _⟩
    · obtain ⟨ha, hle, hlt⟩ := (hkeys _).mp (hsub _ hmem)
      exact ⟨ha, hle, Int.le_of_lt hlt⟩
  have ht : t.writer.horizon = some ((least? failed).getD horizon) := rfl
  refine ⟨⟨?_, ?_, ?_⟩, _, ht, hreached.2.1, hreached.2.2⟩
  · intro hnone
    rw [ht] at hnone
    cases hnone
  · intro h hh
    rw [ht] at hh
    cases hh
    exact hreached.1
  · intro h hh k hk
    rw [ht] at hh
    cases hh
    obtain ⟨hold, hfailed⟩ := EventLog.hasLog_of_delete hk
    obtain ⟨ha, hle⟩ := hs.logs last hlast k hold
    refine ⟨ha, ?_⟩
    by_cases hmem : k ∈ keys
    · exact least?_getD_le (hfailed hmem)
    · have hnot : horizon ≤ k := by
        apply Int.le_of_not_gt
        intro hlt
        exact hmem ((hkeys k).mpr ⟨ha, hle, hlt⟩)
      exact Int.le_trans hreached.2.2 hnot

/-- A cleanup keeps the horizon in its place or moves it forward, and never as far as the reference
window. -/
theorem retained_cleanup (hs : s.Retained) (hperiod : 0 ≤ s.writer.settings.cleanupPeriod)
    (now : Int) :
    (s.cleanup now).1.Retained ∧
      ∀ last, s.writer.horizon = some last → ∃ h, (s.cleanup now).1.writer.horizon = some h ∧
        last ≤ h ∧ (h = last ∨ h < s.writer.reference now) := by
  have hcase := s.cleanup_cleanup now
  cases hc : s.cleanup now with
  | mk t outcome =>
    rw [hc] at hcase
    have hstay : s.Retained ∧ ∀ last, s.writer.horizon = some last →
        ∃ h, s.writer.horizon = some h ∧ last ≤ h ∧ (h = last ∨ h < s.writer.reference now) :=
      ⟨hs, fun last hlast => ⟨last, hlast, Int.le_refl _, Or.inl rfl⟩⟩
    cases hcase with
    | unstarted _ => exact hstay
    | early _ _ => exact hstay
    | refused _ _ _ => exact hstay
    | @due last hlast hmoved _ =>
      obtain ⟨hretained, h, hh, hle, hlt⟩ := retained_expire now hs hlast (by omega)
      refine ⟨hretained, ?_⟩
      intro last' hlast'
      rw [hlast] at hlast'
      cases hlast'
      refine ⟨h, hh, hle, Or.inr ?_⟩
      have hreference := retentionHorizon_lt_reference s.writer now
      omega

theorem hasLog_of_appendBatch {key : Int} {events : List Event}
    (hk : (s.appendBatch key events).1.log.HasLog k) : s.log.HasLog k ∨ k = key := by
  obtain ⟨_, hsame | ⟨_, _, _, hadd⟩⟩ := s.appendBatch_cases key events
  · rw [hsame] at hk
    exact Or.inl hk
  · exact EventLog.hasLog_of_addBytes hadd hk

/-- A drain adds logs only for its reference window and the next one. -/
theorem hasLog_of_routed (hk : (s.routed now).log.HasLog k) :
    s.log.HasLog k ∨ k = s.writer.reference now ∨
      k = s.writer.reference now + s.writer.interval.millis := by
  rw [log_routed] at hk
  rcases hasLog_of_appendBatch (s := s.halfRouted now) hk with hk | hk
  · rcases hasLog_of_appendBatch (s := s.rotated now) hk with hk | hk
    · left
      exact EventLog.hasLog_of_seals ((s.begun now).rotate_seals (s.writer.reference now)).2.1 hk
    · exact Or.inr (Or.inl hk)
  · exact Or.inr (Or.inr hk)

theorem aligned_reference (w : Writer) (now : Int) : w.interval.Aligned (w.reference now) := by
  have hkey := w.interval.aligned_key now
  unfold Interval.Aligned at hkey ⊢
  unfold Writer.reference
  rw [Int.sub_emod, hkey]
  simp

theorem retained_routed (hs : s.Retained)
    (hbefore : ∀ h, s.writer.horizon = some h → h ≤ s.writer.reference now) :
    (s.routed now).Retained := by
  obtain ⟨_, _, _, hsettings, _, hhorizon, _⟩ := s.onlyLogs_routed now
  have hinterval : (s.routed now).writer.interval = s.writer.interval :=
    congrArg WriterSettings.interval hsettings
  have hreference : s.writer.interval.Aligned (s.writer.reference now) :=
    aligned_reference s.writer now
  -- The first drain takes its reference window as the horizon.
  have hstarted : s.writer.interval.Aligned (s.writer.horizon.getD (s.writer.reference now)) ∧
      s.writer.horizon.getD (s.writer.reference now) ≤ s.writer.reference now := by
    cases hh : s.writer.horizon with
    | none => exact ⟨hreference, Int.le_refl _⟩
    | some h => exact ⟨hs.aligned h hh, hbefore h hh⟩
  have hnext : s.writer.interval.Aligned (s.writer.reference now + s.writer.interval.millis) := by
    unfold Interval.Aligned at hreference ⊢
    rw [Int.add_emod_right]
    exact hreference
  refine ⟨?_, ?_, ?_⟩
  · intro hnone
    rw [hhorizon] at hnone
    cases hnone
  · intro h hh
    rw [hhorizon] at hh
    cases hh
    rw [hinterval]
    exact hstarted.1
  · intro h hh k hk
    rw [hhorizon] at hh
    cases hh
    rw [hinterval]
    have hpos := s.writer.interval.pos
    rcases hasLog_of_routed hk with hk | rfl | rfl
    · cases hold : s.writer.horizon with
      | none => exact absurd hk (hs.unstarted hold k)
      | some h => exact hs.logs h hold k hk
    · exact ⟨hreference, hstarted.2⟩
    · exact ⟨hnext, by omega⟩

end Horizon

section Runs

variable {s : Ingestion} {k : Int}

/-- The state in which an action is to clean up, and the time of that. -/
def beforeCleanup? (s : Ingestion) : Action → Option (Ingestion × Int)
  | .drain now => if s.writer.enabled then some (s.routed now, now) else none
  | .cleanup now => some (s, now)
  | .put _ | .enable _ | .fail _ => none

/-- The state in which an action comes to a cleanup, and the time of that. A drain that breaks off
does not come to it. -/
def cleaning? (s : Ingestion) (a : Action) : Option (Ingestion × Int) :=
  if s.Aborts a then none else s.beforeCleanup? a

/-- The windows that an action reports as deleted. -/
def reportedDeleted (s : Ingestion) : Action → List Int
  | .drain now =>
    match (s.drain now).2 with
    | .ok r => r.deleted
    | .error _ => []
  | .cleanup now =>
    match (s.cleanup now).2 with
    | .ok deleted => deleted
    | .error _ => []
  | .put _ | .enable _ | .fail _ => []

/-- The windows whose deletion fails in a cleanup. -/
def deleteFailures (s : Ingestion) (now : Int) : List Int :=
  match s.writer.horizon with
  | none => []
  | some last =>
    let horizon := s.writer.retentionHorizon now
    let start := s.writer.interval.key last
    if horizon - last ≤ s.writer.settings.cleanupPeriod then []
    else if (CleanupError.ofCount? s.writer.settings.listLimit
        (s.writer.interval.countBetween start horizon)).isSome then []
    else (s.log.delete (s.writer.interval.keysBetween start horizon)).2.2

theorem deleteFailures_of_due {last now : Int} (hlast : s.writer.horizon = some last)
    (hmoved : s.writer.settings.cleanupPeriod < s.writer.retentionHorizon now - last)
    (hfew : CleanupError.ofCount? s.writer.settings.listLimit
      (s.writer.interval.countBetween (s.writer.interval.key last)
        (s.writer.retentionHorizon now)) = none) :
    s.deleteFailures now = (s.log.delete (s.writer.interval.keysBetween
      (s.writer.interval.key last) (s.writer.retentionHorizon now))).2.2 := by
  rw [deleteFailures, hlast]
  dsimp only
  rw [if_neg (Int.not_le.mpr hmoved), hfew]
  rfl

/-- The windows whose deletion fails in an action. -/
def failedDeletions (s : Ingestion) (a : Action) : List Int :=
  match s.cleaning? a with
  | some (t, now) => t.deleteFailures now
  | none => []

/-- Drains that find the writer enabled are to clean up once they have written, and cleanups at
once. -/
theorem beforeCleanup?_cases {a : Action} {t : Ingestion} {now : Int}
    (h : s.beforeCleanup? a = some (t, now)) :
    (a = .drain now ∧ s.writer.enabled = true ∧ t = s.routed now) ∨ (a = .cleanup now ∧ t = s) := by
  cases a with
  | drain now' =>
    rw [beforeCleanup?] at h
    split at h
    · next hon =>
      cases h
      exact Or.inl ⟨rfl, hon, rfl⟩
    · cases h
  | cleanup now' =>
    cases h
    exact Or.inr ⟨rfl, rfl⟩
  | put _ => cases h
  | enable _ => cases h
  | fail _ => cases h

theorem beforeCleanup?_of_cleaning? {a : Action} {t : Ingestion} {now : Int}
    (h : s.cleaning? a = some (t, now)) : ¬s.Aborts a ∧ s.beforeCleanup? a = some (t, now) := by
  unfold cleaning? at h
  split at h
  · cases h
  · next haborts => exact ⟨haborts, h⟩

theorem cleaning?_cases {a : Action} {t : Ingestion} {now : Int}
    (h : s.cleaning? a = some (t, now)) :
    (a = .drain now ∧ s.writer.enabled = true ∧ t = s.routed now) ∨ (a = .cleanup now ∧ t = s) :=
  beforeCleanup?_cases (beforeCleanup?_of_cleaning? h).2

theorem settings_of_beforeCleanup? {a : Action} {t : Ingestion} {now : Int}
    (h : s.beforeCleanup? a = some (t, now)) : t.writer.settings = s.writer.settings := by
  rcases beforeCleanup?_cases h with ⟨_, _, rfl⟩ | ⟨_, rfl⟩
  · exact settings_routed now
  · rfl

theorem settings_of_cleaning? {a : Action} {t : Ingestion} {now : Int}
    (h : s.cleaning? a = some (t, now)) : t.writer.settings = s.writer.settings :=
  settings_of_beforeCleanup? (beforeCleanup?_of_cleaning? h).2

theorem act_of_cleaning? {a : Action} {t : Ingestion} {now : Int}
    (h : s.cleaning? a = some (t, now)) : s.act a = (t.cleanup now).1 := by
  obtain ⟨haborts, hbefore⟩ := beforeCleanup?_of_cleaning? h
  rcases beforeCleanup?_cases hbefore with ⟨rfl, hon, rfl⟩ | ⟨rfl, rfl⟩
  · exact congrArg Prod.fst (drain_of_enabled now hon fun hbreaks => haborts ⟨hon, hbreaks⟩)
  · rfl

/-- A drain that breaks off leaves what it has come to by then. -/
theorem act_of_aborts {a : Action} {t : Ingestion} {now : Int}
    (h : s.beforeCleanup? a = some (t, now)) (haborts : s.Aborts a) : s.act a = t := by
  rcases beforeCleanup?_cases h with ⟨rfl, hon, rfl⟩ | ⟨rfl, _⟩
  · exact congrArg Prod.fst (drain_of_breaksOff now hon haborts.2)
  · exact haborts.elim

theorem cleaning?_of_not_aborts {a : Action} (haborts : ¬s.Aborts a) :
    s.cleaning? a = s.beforeCleanup? a := if_neg haborts

/-- The limit on counting lies above the one on listing, so the latter alone decides. -/
theorem ofCount?_eq_none_iff {limit : ListLimit} {n : Nat} :
    CleanupError.ofCount? limit n = none ↔ n < limit.windows := by
  have hcountable := limit.countable
  unfold CleanupError.ofCount?
  by_cases h₁ : countLimit ≤ n
  · simp only [if_pos h₁, reduceCtorEq, false_iff]
    omega
  · by_cases h₂ : limit.windows ≤ n
    · simp [h₁, h₂]
    · simp [h₁, h₂]
      omega

/-- A cleanup is refused exactly when it is due and there are too many windows to list. -/
theorem cleanup_refused_iff (s : Ingestion) (now : Int) :
    (∃ e, (s.cleanup now).2 = .error e) ↔
      ∃ last, s.writer.horizon = some last ∧
        s.writer.settings.cleanupPeriod < s.writer.retentionHorizon now - last ∧
        s.writer.listLimit ≤ s.writer.interval.countBetween (s.writer.interval.key last)
          (s.writer.retentionHorizon now) := by
  have hcount (n : Nat) : CleanupError.ofCount? s.writer.settings.listLimit n = none ↔
      n < s.writer.listLimit := ofCount?_eq_none_iff
  have hcase := s.cleanup_cleanup now
  cases hc : s.cleanup now with
  | mk t outcome =>
    rw [hc] at hcase
    cases hcase with
    | unstarted h =>
      constructor
      · rintro ⟨e, he⟩
        cases he
      · rintro ⟨last, hlast, _⟩
        rw [h] at hlast
        cases hlast
    | early h hmoved =>
      constructor
      · rintro ⟨e, he⟩
        cases he
      · rintro ⟨last, hlast, hmoved', _⟩
        rw [h] at hlast
        cases hlast
        omega
    | @refused last e h hmoved hmany =>
      refine ⟨fun _ => ⟨last, h, hmoved, ?_⟩, fun _ => ⟨e, rfl⟩⟩
      apply Nat.le_of_not_lt
      intro hfew
      rw [(hcount _).mpr hfew] at hmany
      cases hmany
    | @due last h hmoved hfew =>
      constructor
      · rintro ⟨e, he⟩
        cases he
      · rintro ⟨last', hlast', _, hmany⟩
        rw [h] at hlast'
        cases hlast'
        have hlt := (hcount _).mp hfew
        omega

/-- Nothing is lost by an action, except logs that a drain or a cleanup finds old enough. -/
theorem act_spares (s : Ingestion) (a : Action) (k : Int) :
    (s.log.Keeps (s.act a).log k ∧ k ∉ s.reportedDeleted a) ∨
      ∃ now, (a = .drain now ∨ a = .cleanup now) ∧
        k + s.writer.interval.millis + s.writer.settings.retention ≤ now ∧
        k < s.writer.reference now := by
  -- A window is older than its retention only if it lies before the reference window.
  have hold : ∀ now, k + s.writer.interval.millis + s.writer.settings.retention ≤ now →
      k < s.writer.reference now := by
    intro now hnow
    apply Int.lt_of_not_ge
    intro hle
    have hyoung := lt_of_reference_le (w := s.writer) hle
    omega
  cases a with
  | put o => exact Or.inl ⟨EventLog.Keeps.refl _ _, List.not_mem_nil⟩
  | enable on => exact Or.inl ⟨EventLog.Keeps.refl _ _, List.not_mem_nil⟩
  | fail faults => exact Or.inl ⟨EventLog.Keeps.of_eq rfl, List.not_mem_nil⟩
  | drain now =>
    by_cases hk : now < k + s.writer.interval.millis + s.writer.settings.retention
    · obtain ⟨hkeeps, hreport⟩ := drain_spares now hk
      refine Or.inl ⟨hkeeps, ?_⟩
      rw [reportedDeleted]
      split
      · next r hr => exact hreport r hr
      · exact List.not_mem_nil
    · exact Or.inr ⟨now, Or.inl rfl, Int.not_lt.mp hk, hold now (Int.not_lt.mp hk)⟩
  | cleanup now =>
    by_cases hk : now < k + s.writer.interval.millis + s.writer.settings.retention
    · obtain ⟨hkeeps, hreport⟩ := cleanup_spares now hk
      refine Or.inl ⟨hkeeps, ?_⟩
      rw [reportedDeleted]
      split
      · next deleted hd => exact hreport deleted hd
      · exact List.not_mem_nil
    · exact Or.inr ⟨now, Or.inr rfl, Int.not_lt.mp hk, hold now (Int.not_lt.mp hk)⟩

/-- A step at some times keeps the logs in order. The horizon is where it was, or it lies further on
and not behind the reference window of one of the times. -/
structure Advances (s t : Ingestion) (times : List Int) : Prop where
  retained : t.Retained
  forward : ∀ last, s.writer.horizon = some last → ∃ h, t.writer.horizon = some h ∧ last ≤ h
  bounded : ∀ h, t.writer.horizon = some h →
    s.writer.horizon = some h ∨ ∃ now ∈ times, h ≤ s.writer.reference now

theorem advances_of_eq {t : Ingestion} {times : List Int} (hs : s.Retained)
    (hdirectory : t.log.directory = s.log.directory)
    (hsettings : t.writer.settings = s.writer.settings)
    (hhorizon : t.writer.horizon = s.writer.horizon) : s.Advances t times := by
  have hlogs (k : Int) : t.log.HasLog k ↔ s.log.HasLog k := by
    unfold EventLog.HasLog EventLog.logAt
    rw [hdirectory]
  have haligned (k : Int) :
      t.writer.interval.Aligned k ↔ s.writer.interval.Aligned k := by
    unfold Writer.interval
    rw [hsettings]
  refine ⟨⟨?_, ?_, ?_⟩, ?_, ?_⟩
  · intro hnone k hk
    exact hs.unstarted (hhorizon.symm.trans hnone) k ((hlogs k).mp hk)
  · intro h hh
    exact (haligned h).mpr (hs.aligned h (hhorizon.symm.trans hh))
  · intro h hh k hk
    obtain ⟨hal, hle⟩ := hs.logs h (hhorizon.symm.trans hh) k ((hlogs k).mp hk)
    exact ⟨(haligned k).mpr hal, hle⟩
  · intro last hlast
    exact ⟨last, hhorizon.trans hlast, Int.le_refl _⟩
  · intro h hh
    exact Or.inl (hhorizon.symm.trans hh)

theorem advances_cleanup (hs : s.Retained) (hperiod : 0 ≤ s.writer.settings.cleanupPeriod)
    (now : Int) : s.Advances (s.cleanup now).1 [now] := by
  obtain ⟨hretained, hmoves⟩ := retained_cleanup hs hperiod now
  refine ⟨hretained, ?_, ?_⟩
  · intro last hlast
    obtain ⟨h, hh, hle, _⟩ := hmoves last hlast
    exact ⟨h, hh, hle⟩
  · intro h hh
    cases hold : s.writer.horizon with
    | none =>
      have hsame : (s.cleanup now).1 = s := by
        unfold cleanup
        rw [hold]
      rw [hsame, hold] at hh
      cases hh
    | some last =>
      obtain ⟨h', hh', _, heq | hlt⟩ := hmoves last hold
      · rw [← heq, ← hh']
        exact Or.inl hh
      · have heq : h' = h := Option.some.inj (hh'.symm.trans hh)
        rw [heq] at hlt
        exact Or.inr ⟨now, .head _, Int.le_of_lt hlt⟩

theorem advances_drain {now : Int} (hs : s.Retained)
    (hperiod : 0 ≤ s.writer.settings.cleanupPeriod)
    (hbefore : ∀ h, s.writer.horizon = some h → h ≤ s.writer.reference now) :
    s.Advances (s.drain now).1 [now] := by
  by_cases hon : s.writer.enabled = true
  · obtain ⟨_, _, _, hsettings, _, hhorizon, _⟩ := s.onlyLogs_routed now
    have hreference : (s.routed now).writer.reference now = s.writer.reference now := by
      unfold Writer.reference Writer.interval
      rw [hsettings]
    rw [← hsettings] at hperiod
    have hrouted := retained_routed hs hbefore
    obtain ⟨hretained, hmoves⟩ := retained_cleanup hrouted hperiod now
    -- Up to the cleanup the horizon stays, or the first drain has it begin at its reference window.
    have hstarted (t : Ingestion) (ht : t.Retained) {h : Int} (hh : t.writer.horizon = some h)
        (hle : s.writer.horizon.getD (s.writer.reference now) ≤ h)
        (hreached : h = s.writer.horizon.getD (s.writer.reference now) ∨
          h < s.writer.reference now) : s.Advances t [now] := by
      refine ⟨ht, ?_, ?_⟩
      · intro last hlast
        rw [hlast, Option.getD_some] at hle
        exact ⟨h, hh, hle⟩
      · intro h' hh'
        obtain rfl : h = h' := Option.some.inj (hh.symm.trans hh')
        rcases hreached with heq | hlt
        · cases hold : s.writer.horizon with
          | none =>
            rw [hold, Option.getD_none] at heq
            exact Or.inr ⟨now, .head _, Int.le_of_eq heq⟩
          | some last =>
            rw [hold, Option.getD_some] at heq
            rw [heq]
            exact Or.inl rfl
        · exact Or.inr ⟨now, .head _, Int.le_of_lt hlt⟩
    obtain ⟨h, hh, hle, hreached⟩ := hmoves _ hhorizon
    rw [hreference] at hreached
    exact drain_cases (P := fun t => s.Advances t [now]) now hon
      (fun _ => hstarted _ hrouted hhorizon (Int.le_refl _) (Or.inl rfl))
      fun _ => hstarted _ hretained hh hle hreached
  · rw [drain_of_not_enabled now hon]
    exact advances_of_eq hs rfl rfl rfl

theorem advances_act {a : Action} (hs : s.Retained)
    (hperiod : 0 ≤ s.writer.settings.cleanupPeriod)
    (hbefore : ∀ now, a = .drain now → ∀ h, s.writer.horizon = some h →
      h ≤ s.writer.reference now) : s.Advances (s.act a) (times [a]) := by
  cases a with
  | put o => exact advances_of_eq hs rfl rfl rfl
  | enable on => exact advances_of_eq hs rfl rfl rfl
  | fail faults => exact advances_of_eq hs rfl rfl rfl
  | cleanup now => exact advances_cleanup hs hperiod now
  | drain now => exact advances_drain hs hperiod (hbefore now rfl)

theorem times_concat (actions : List Action) (a : Action) :
    times (actions ++ [a]) = times actions ++ times [a] := List.filterMap_append

/-- Throughout a run whose times do not go back, no log is behind the horizon, and the horizon is
never behind the reference window of a later time. -/
theorem retained_perform (hperiod : 0 ≤ s.writer.settings.cleanupPeriod)
    (hhorizon : s.writer.horizon = none) (hfresh : ∀ k, ¬s.log.HasLog k) (actions : List Action)
    (hclock : (times actions).Pairwise (· ≤ ·)) :
    (s.perform actions).Retained ∧
      ∀ now, (∀ t ∈ times actions, t ≤ now) → ∀ h, (s.perform actions).writer.horizon = some h →
        h ≤ s.writer.reference now := by
  -- By induction on the run from its end. A horizon comes from an earlier time, so it is not behind
  -- the reference window of a later one.
  induction actions using List.reverseRecOn with
  | nil =>
    change s.Retained ∧ ∀ now, _ → ∀ h, s.writer.horizon = some h → _
    rw [hhorizon]
    refine ⟨⟨fun _ => hfresh, ?_, ?_⟩, ?_⟩
    · intro h hh
      rw [hhorizon] at hh
      cases hh
    · intro h hh
      rw [hhorizon] at hh
      cases hh
    · intro now _ h hh
      cases hh
  | append_singleton earlier a ih =>
    rw [times_concat, List.pairwise_append] at hclock
    obtain ⟨hearlier, _, hlast⟩ := hclock
    obtain ⟨hretained, hbehind⟩ := ih hearlier
    have hperiod' : 0 ≤ (s.perform earlier).writer.settings.cleanupPeriod := by
      rw [settings_perform]
      exact hperiod
    have hbefore : ∀ now, a = .drain now → ∀ h, (s.perform earlier).writer.horizon = some h →
        h ≤ (s.perform earlier).writer.reference now := by
      rintro now rfl h hh
      rw [reference_perform]
      exact hbehind now (fun t ht => hlast t ht now (.head _)) h hh
    obtain ⟨hnext, _, horigin⟩ := advances_act hretained hperiod' hbefore
    rw [perform_concat]
    refine ⟨hnext, ?_⟩
    intro now hnow h hh
    rw [times_concat] at hnow
    rcases horigin h hh with hold | ⟨t, ht, hle⟩
    · exact hbehind now (fun t ht => hnow t (List.mem_append_left _ ht)) h hold
    · rw [reference_perform] at hle
      have hmono := reference_mono s.writer (hnow t (List.mem_append_right _ ht))
      omega

/-- Where no deletion fails, a cleanup that is not refused leaves no log that is too old. -/
theorem cleanup_leaves_young {t : Ingestion} {now : Int} (ht : t.Retained)
    (hperiod : 0 ≤ t.writer.settings.cleanupPeriod) (hstarted : t.writer.horizon ≠ none)
    (hfailures : t.deleteFailures now = []) (hok : ∃ deleted, (t.cleanup now).2 = .ok deleted)
    (hk : (t.cleanup now).1.log.HasLog k) :
    t.writer.retentionHorizon now - t.writer.settings.cleanupPeriod ≤ k := by
  have hcase := t.cleanup_cleanup now
  cases hc : t.cleanup now with
  | mk u outcome =>
    rw [hc] at hcase hk hok
    cases hcase with
    | unstarted hnone => exact absurd hnone hstarted
    | @early last hlast hmoved =>
      have hle := (ht.logs last hlast k hk).2
      omega
    | refused _ _ _ =>
      obtain ⟨deleted, hd⟩ := hok
      cases hd
    | @due last hlast hmoved hfew =>
      have hnone : (t.log.delete (t.writer.interval.keysBetween (t.writer.interval.key last)
          (t.writer.retentionHorizon now))).2.2 = [] :=
        (deleteFailures_of_due hlast hmoved hfew).symm.trans hfailures
      -- Where no deletion fails, the horizon moves as far as it should.
      obtain ⟨hretained, _, hh, _, _⟩ := retained_expire now ht hlast (by omega)
      have hreached := hh.symm.trans (horizon_expire t _ _)
      rw [hnone] at hreached
      rw [hreached] at hh
      have hle := (hretained.logs _ hh k hk).2
      change t.writer.retentionHorizon now ≤ k at hle
      omega

theorem hasLog_of_cleanup {now : Int} (hk : (s.cleanup now).1.log.HasLog k) : s.log.HasLog k := by
  have hcase := s.cleanup_cleanup now
  cases hc : s.cleanup now with
  | mk t outcome =>
    rw [hc] at hcase hk
    cases hcase with
    | unstarted _ => exact hk
    | early _ _ => exact hk
    | refused _ _ _ => exact hk
    | due _ _ _ => exact (EventLog.hasLog_of_delete hk).1

theorem cleanup_of_refused {now : Int} (h : ¬∃ deleted, (s.cleanup now).2 = .ok deleted) :
    (s.cleanup now).1 = s := by
  have hcase := s.cleanup_cleanup now
  cases hc : s.cleanup now with
  | mk t outcome =>
    rw [hc] at hcase h
    cases hcase with
    | unstarted _ => rfl
    | early _ _ => rfl
    | refused _ _ _ => rfl
    | due _ _ _ => exact absurd ⟨_, rfl⟩ h

theorem retained_of_beforeCleanup? {a : Action} {t : Ingestion} {now : Int} (hs : s.Retained)
    (hbefore : ∀ now, a = .drain now → ∀ h, s.writer.horizon = some h →
      h ≤ s.writer.reference now)
    (h : s.beforeCleanup? a = some (t, now)) : t.Retained := by
  rcases beforeCleanup?_cases h with ⟨rfl, _, rfl⟩ | ⟨_, rfl⟩
  · exact retained_routed hs (hbefore now rfl)
  · exact hs

/-- After an action that comes to a cleanup, and fails to delete nothing, no log is too old: exactly
unless there was such a log and the drain breaks off or the cleanup is refused. -/
theorem leaves_young_iff {a : Action} {t : Ingestion} {now : Int}
    (hperiod : 0 ≤ s.writer.settings.cleanupPeriod) (hcoming : s.beforeCleanup? a = some (t, now))
    (ht : t.Retained) (hstarted : t.writer.horizon ≠ none) (hfailures : s.failedDeletions a = []) :
    (∀ k, (s.act a).log.HasLog k →
        s.writer.retentionHorizon now - s.writer.settings.cleanupPeriod ≤ k) ↔
      (¬s.Aborts a ∧ ∃ deleted, (t.cleanup now).2 = .ok deleted) ∨
        ∀ k, t.log.HasLog k →
          s.writer.retentionHorizon now - s.writer.settings.cleanupPeriod ≤ k := by
  by_cases haborts : s.Aborts a
  -- A drain that breaks off deletes nothing.
  · rw [act_of_aborts hcoming haborts]
    exact ⟨Or.inr, fun h => h.elim (fun hok => absurd haborts hok.1) id⟩
  have hcleaning := (cleaning?_of_not_aborts haborts).trans hcoming
  rw [act_of_cleaning? hcleaning]
  rw [failedDeletions, hcleaning] at hfailures
  have hsettings := settings_of_cleaning? hcleaning
  have hhorizon : t.writer.retentionHorizon now = s.writer.retentionHorizon now := by
    unfold Writer.retentionHorizon Writer.interval
    rw [hsettings]
  constructor
  · intro hyoung
    by_cases hok : ∃ deleted, (t.cleanup now).2 = .ok deleted
    · exact Or.inl ⟨haborts, hok⟩
    -- A cleanup that is refused leaves everything as it was, what is too old included.
    · right
      intro k hk
      apply hyoung k
      rw [cleanup_of_refused hok]
      exact hk
  · rintro (⟨_, hok⟩ | hyoung) k hk
    · rw [← hsettings] at hperiod
      have hleft := cleanup_leaves_young ht hperiod hstarted hfailures hok hk
      rw [hhorizon, hsettings] at hleft
      exact hleft
    · exact hyoung k (hasLog_of_cleanup hk)

end Runs

/-- Retention along every run whose times do not go back, for each action `a` of it. Only logs that
are old enough are lost; the horizon is that of a window and does not decrease; no log is behind it;
and after a cleanup or a drain without failed deletions no log is too old, exactly unless there was
such a log and the drain breaks off or the cleanup is refused. -/
theorem logs_retained (s : Ingestion) (actions : List Action) (a : Action)
    (hperiod : 0 ≤ s.writer.settings.cleanupPeriod) (hhorizon : s.writer.horizon = none)
    (hfresh : ∀ k, ¬s.log.HasLog k)
    (hclock : (times (actions ++ [a])).Pairwise (· ≤ ·)) :
    (∀ k, ((s.perform actions).log.Keeps (s.perform (actions ++ [a])).log k ∧
        k ∉ (s.perform actions).reportedDeleted a) ∨
      ∃ now, (a = .drain now ∨ a = .cleanup now) ∧
        k + s.writer.interval.millis + s.writer.settings.retention ≤ now ∧
        k < s.writer.reference now) ∧
    (∀ h, (s.perform (actions ++ [a])).writer.horizon = some h → s.writer.interval.Aligned h) ∧
    (∀ last, (s.perform actions).writer.horizon = some last →
      ∃ h, (s.perform (actions ++ [a])).writer.horizon = some h ∧ last ≤ h) ∧
    (∀ h, (s.perform (actions ++ [a])).writer.horizon = some h →
      ∀ k, (s.perform (actions ++ [a])).log.HasLog k → h ≤ k) ∧
    ∀ t now, (s.perform actions).beforeCleanup? a = some (t, now) → t.writer.horizon ≠ none →
      (s.perform actions).failedDeletions a = [] →
      ((∀ k, (s.perform (actions ++ [a])).log.HasLog k →
          s.writer.retentionHorizon now - s.writer.settings.cleanupPeriod ≤ k) ↔
        (¬(s.perform actions).Aborts a ∧ ∃ deleted, (t.cleanup now).2 = .ok deleted) ∨
          ∀ k, t.log.HasLog k →
            s.writer.retentionHorizon now - s.writer.settings.cleanupPeriod ≤ k) := by
  have hinterval : (s.perform actions).writer.interval = s.writer.interval :=
    congrArg WriterSettings.interval (s.settings_perform actions)
  have hsettings := s.settings_perform actions
  have hperiod' : 0 ≤ (s.perform actions).writer.settings.cleanupPeriod := by
    rw [hsettings]
    exact hperiod
  have hafter := hclock
  rw [times_concat, List.pairwise_append] at hclock
  obtain ⟨hretained, hbehind⟩ := retained_perform hperiod hhorizon hfresh actions hclock.1
  obtain ⟨hnext, _⟩ := retained_perform hperiod hhorizon hfresh (actions ++ [a]) hafter
  have hbefore : ∀ now, a = .drain now → ∀ h, (s.perform actions).writer.horizon = some h →
      h ≤ (s.perform actions).writer.reference now := by
    rintro now rfl h hh
    rw [reference_perform]
    exact hbehind now (fun t ht => hclock.2.2 t ht now (.head _)) h hh
  obtain ⟨_, hmoves, _⟩ := advances_act hretained hperiod' hbefore
  have hinterval' : (s.perform (actions ++ [a])).writer.interval = s.writer.interval :=
    congrArg WriterSettings.interval (s.settings_perform (actions ++ [a]))
  refine ⟨?_, ?_, ?_, fun h hh k hk => (hnext.logs h hh k hk).2, ?_⟩
  · intro k
    rw [perform_concat]
    have hspares := (s.perform actions).act_spares a k
    rw [hinterval, hsettings] at hspares
    simp only [reference_perform] at hspares
    exact hspares
  · intro h hh
    have haligned := hnext.aligned h hh
    rw [hinterval'] at haligned
    exact haligned
  · rw [perform_concat]
    exact hmoves
  · intro t now hcoming hstarted hfailures
    have hiff := leaves_young_iff hperiod' hcoming
      (retained_of_beforeCleanup? hretained hbefore hcoming) hstarted hfailures
    have hhorizon' : (s.perform actions).writer.retentionHorizon now =
        s.writer.retentionHorizon now := by
      unfold Writer.retentionHorizon Writer.interval
      rw [hsettings]
    rw [← perform_concat, hhorizon', hsettings] at hiff
    exact hiff

theorem no_log_tenMillis (k : Int) : ¬tenMillis.log.HasLog k := by
  rintro ⟨b, bytes, h⟩
  cases h

/-- The first window is written to, and then time goes on. -/
def firstWindow : List Action := [.put (.event (startAt 5)), .drain 15]

theorem first_log_deleted_in_time :
    0 ≤ tenMillis.writer.settings.cleanupPeriod ∧ tenMillis.writer.horizon = none ∧
      (∀ k, ¬tenMillis.log.HasLog k) ∧ (times (firstWindow ++ [.drain 45])).Pairwise (· ≤ ·) ∧
      (tenMillis.perform firstWindow).reportedDeleted (.drain 45) = [0] ∧
      (0 : Int) < tenMillis.writer.reference 45 ∧
      ∀ k, (tenMillis.perform (firstWindow ++ [.drain 45])).log.HasLog k → 20 ≤ k := by
  have hperiod : 0 ≤ tenMillis.writer.settings.cleanupPeriod := by decide
  have hclock : (times (firstWindow ++ [.drain 45])).Pairwise (· ≤ ·) := by decide
  have hdeleted : (tenMillis.perform firstWindow).reportedDeleted (.drain 45) = [0] := by
    decide +kernel
  obtain ⟨hspares, _, _, _, hleaves⟩ :=
    logs_retained tenMillis firstWindow (.drain 45) hperiod rfl no_log_tenMillis hclock
  refine ⟨hperiod, rfl, no_log_tenMillis, hclock, hdeleted, ?_, ?_⟩
  · rcases hspares 0 with ⟨_, hnot⟩ | ⟨now, hnow | hnow, _, hlt⟩
    · rw [hdeleted] at hnot
      exact absurd (.head _) hnot
    · cases hnow
      exact hlt
    · cases hnow
  · have hfailures : (tenMillis.perform firstWindow).failedDeletions (.drain 45) = [] := by
      decide +kernel
    have hok : (((tenMillis.perform firstWindow).routed 45).cleanup 45).2 = .ok [0] := by
      decide +kernel
    have hwhole : ¬(tenMillis.perform firstWindow).Aborts (.drain 45) := by decide +kernel
    exact (hleaves _ 45 rfl (by decide +kernel) hfailures).mpr (Or.inl ⟨hwhole, [0], hok⟩)

/-- A cleanup that would go through too many windows fails, so that a log stays however old it is,
although no deletion has failed. -/
theorem refused_cleanup_leaves_log :
    ¬∀ (s : Ingestion) (actions : List Action) (now : Int),
      0 ≤ s.writer.settings.cleanupPeriod → s.writer.horizon = none →
      (∀ k, ¬s.log.HasLog k) → (times (actions ++ [.cleanup now])).Pairwise (· ≤ ·) →
      (s.perform actions).writer.horizon ≠ none → (s.perform actions).deleteFailures now = [] →
      ∀ k, (s.perform (actions ++ [.cleanup now])).log.HasLog k →
        s.writer.retentionHorizon now - s.writer.settings.cleanupPeriod ≤ k := by
  intro h
  have hleft := h tenMillis firstWindow 92233720368547758120 (by decide) rfl no_log_tenMillis
    (by decide) (by decide +kernel) (by decide +kernel) 0
    ⟨false, EventLog.linesOf [startAt 5], by decide +kernel⟩
  exact absurd hleft (by decide)

end Ingestion

end RequestWindows
