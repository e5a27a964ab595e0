import RequestWindows.Proofs.EventLog.Faithful
import RequestWindows.Proofs.Writer.Sealing
import RequestWindows.Proofs.Writer.Retention

namespace RequestWindows

theorem Event.window_fits {e : Event} (i : Interval) (h : e.emittedAt < Nat.pow 2 63) :
    0 ≤ e.window i ∧ fitsBits 64 (e.window i) = true := by
  have hzero : 0 ≤ e.window i := i.key_nonneg (Int.natCast_nonneg _)
  have hle : e.window i ≤ e.emittedAt := i.key_le _
  have hpow : Nat.pow 2 (64 - 1) = Nat.pow 2 63 := rfl
  refine ⟨by omega, fitsBits_iff.mpr ⟨?_, ?_⟩⟩
  · omega
  · rw [hpow]
    omega

namespace Ingestion

/-- The events that an action drains and that are not stale then. -/
def kept (s : Ingestion) : Action → List Event
  | .drain now =>
    if s.writer.enabled then
      s.queue.events.filter fun e =>
        e.window s.writer.interval = s.writer.reference now ∨
          e.window s.writer.interval = s.writer.reference now + s.writer.interval.millis
    else []
  | _ => []

/-- Whether the reference window of the last drain has moved past a window. -/
def closed (last : Option Int) (key : Int) : Bool := last.any (key < ·)

theorem closed_of_le {last : Option Int} {k k' : Int} (h : closed last k' = true) (hle : k ≤ k') :
    closed last k = true := by
  unfold closed at h ⊢
  cases last with
  | none => cases h
  | some r =>
    have hlt : k' < r := of_decide_eq_true h
    exact decide_eq_true (show k < r by omega)

/-- The logs hold `group`, and the windows with an open log are those that count as open. -/
structure Written (s : Ingestion) (group : Int → List Event) (closed : Int → Bool) : Prop where
  log : s.log.Faithful group closed
  openKeys : ∀ k, k ∈ s.writer.openKeys ↔ group k ≠ [] ∧ closed k = false

variable {s : Ingestion} {group : Int → List Event} {closed' : Int → Bool} {key : Int}
  {events : List Event}

section Steps

theorem Written.congr {c : Int → Bool} (h : s.Written group closed')
    (hclosed : ∀ k, group k ≠ [] → closed' k = c k) : s.Written group c := by
  refine ⟨h.log.congr hclosed, ?_⟩
  intro k
  rw [h.openKeys]
  apply and_congr_right
  intro hk
  rw [hclosed k hk]

theorem written_appendBatch (h : s.Written group closed') (hopen : closed' key = false)
    (hkey : events ≠ [] → 0 ≤ key ∧ fitsBits 64 key = true)
    (hwritable : ¬EventLog.Unwritable s.log.strictNames events) :
    (s.appendBatch key events).1.Written
      (fun k => if k = key then group k ++ events else group k) closed' := by
  unfold appendBatch
  by_cases hne : events = []
  · rw [if_pos hne, hne]
    have hsame : (fun k => if k = key then group k ++ [] else group k) = group := by
      funext k
      rw [List.append_nil, ite_self]
    rw [hsame]
    exact h
  · obtain ⟨log', happend, hfaithful⟩ :=
      h.log.append hopen (hkey hne).1 (hkey hne).2 hne hwritable
    rw [if_neg hne]
    simp only [mapOpenKeys, happend]
    refine ⟨hfaithful, ?_⟩
    intro k
    change k ∈ s.writer.openKeys.insert key ↔ _
    rw [KeySet.mem_insert, h.openKeys]
    by_cases hk : k = key
    · subst hk
      simp [hopen, hne]
    · simp [hk]

theorem written_sealOpen (h : s.Written group closed') (hgroup : group key ≠ [])
    (hopen : closed' key = false) :
    (s.sealOpen key).1.Written group fun k => closed' k || k = key := by
  obtain ⟨log', hseal, hfaithful⟩ := h.log.seal hgroup hopen
  unfold sealOpen
  rw [hseal]
  refine ⟨hfaithful, ?_⟩
  intro k
  change k ∈ s.writer.openKeys.erase key ↔ _
  rw [KeySet.mem_erase, h.openKeys, Bool.or_eq_false_iff, decide_eq_false_iff_not, and_assoc]

theorem written_sealAll {keys : List Int} (h : s.Written group closed') (hnodup : keys.Nodup)
    (hkeys : ∀ k ∈ keys, group k ≠ [] ∧ closed' k = false) :
    (s.sealAll keys).1.Written group fun k => closed' k || k ∈ keys := by
  -- The windows that are left have to be open still, so no window may be listed twice.
  induction keys generalizing s closed' with
  | nil =>
    apply h.congr
    intro k _
    rw [decide_eq_false List.not_mem_nil, Bool.or_false]
  | cons key rest ih =>
    obtain ⟨hgroup, hopen⟩ := hkeys key (.head _)
    have hnew := List.nodup_cons.mp hnodup
    have hone := written_sealOpen h hgroup hopen
    have hrest := ih hone hnew.2 (by
      intro k hk
      obtain ⟨hthere, hstill⟩ := hkeys k (.tail _ hk)
      have hne : k ≠ key := by
        rintro rfl
        exact hnew.1 hk
      refine ⟨hthere, ?_⟩
      rw [hstill, decide_eq_false hne]
      rfl)
    rw [sealAll]
    apply Written.congr hrest
    intro k _
    rw [Bool.or_assoc]
    congr 1
    simp

/-- A rotation closes every window before the reference window. -/
theorem written_rotate {reference : Int} (h : s.Written group (closed s.writer.lastReference))
    (hfirst : s.writer.lastReference = none → ∀ k, group k = [])
    (hmono : ∀ r, s.writer.lastReference = some r → r ≤ reference) :
    (s.rotate reference).1.Written group (closed (some reference)) := by
  unfold rotate
  by_cases hsame : s.writer.lastReference = none ∨ s.writer.lastReference = some reference
  · rw [if_pos hsame]
    apply h.congr
    intro k hk
    rcases hsame with hnone | hsame
    · exact absurd (hfirst hnone k) hk
    · rw [hsame]
  · rw [if_neg hsame]
    let keys := s.writer.openKeys.filter (· < reference)
    have hmem (k : Int) : k ∈ keys.toList ↔
        (group k ≠ [] ∧ closed s.writer.lastReference k = false) ∧ k < reference := by
      change k ∈ keys ↔ _
      rw [KeySet.mem_filter, h.openKeys, decide_eq_true_eq]
    have hsealed := written_sealAll h (keys.ascending.imp Int.ne_of_lt)
      fun k hk => ((hmem k).mp hk).1
    apply hsealed.congr
    intro k hk
    -- What is closed already lies before the last reference window, and so before the new one.
    cases hlast : s.writer.lastReference with
    | none => exact absurd (Or.inl hlast) hsame
    | some r =>
      have hle := hmono r hlast
      have hiff := hmem k
      rw [hlast] at hiff
      simp only [closed, Option.any_some] at hiff ⊢
      by_cases hr : k < r
      · rw [decide_eq_true hr, decide_eq_true (show k < reference by omega)]
        rfl
      · rw [decide_eq_false hr, Bool.false_or]
        rw [decide_eq_false hr] at hiff
        simp [hiff, hk]

theorem written_cleanup (now : Int) (h : s.Written group closed')
    (hnone : ∀ deleted, (s.cleanup now).2 = .ok deleted → deleted = []) :
    (s.cleanup now).1.Written group closed' := by
  have hcase := s.cleanup_cleanup now
  cases hc : s.cleanup now with
  | mk t outcome =>
    rw [hc] at hcase hnone
    cases hcase with
    | unstarted _ => exact h
    | early _ _ => exact h
    | refused _ _ _ => exact h
    | due _ _ _ =>
      have hdeleted := hnone _ rfl
      rw [deleted_expire] at hdeleted
      obtain ⟨hsame, hempty⟩ := h.log.delete_of_nothing hdeleted
      refine ⟨?_, ?_⟩
      · rw [log_expire, hsame]
        exact h.log
      · intro k
        change k ∈ s.writer.openKeys.filter _ ↔ _
        rw [KeySet.mem_filter, h.openKeys]
        constructor
        · exact fun hk => hk.1
        · intro hk
          -- A window with a log is none of those that are deleted.
          have hnot : k ∉ s.writer.interval.keysBetween (s.writer.interval.key _)
              (s.writer.retentionHorizon now) := fun hmem => hk.1 (hempty k hmem)
          exact ⟨hk, decide_eq_true (Or.inl hnot)⟩

theorem reportedDeleted_drain {now : Int} (hon : s.writer.enabled = true)
    (hwhole : ¬s.BreaksOff now) :
    s.reportedDeleted (.drain now) = (s.routed now).reportedDeleted (.cleanup now) := by
  rw [reportedDeleted, reportedDeleted, drain_of_enabled now hon hwhole]
  cases ((s.routed now).cleanup now).2 <;> rfl

theorem mem_drainedFor (now : Int) (hon : s.writer.enabled = true)
    (hkey : key = s.writer.reference now ∨
      key = s.writer.reference now + s.writer.interval.millis) :
    s.drainedFor key = Event.ofWindow s.writer.interval (s.kept (.drain now)) key := by
  rw [kept, if_pos hon]
  unfold drainedFor Event.ofWindow
  rw [List.filter_filter]
  apply List.filter_congr
  intro e _
  by_cases he : e.window s.writer.interval = key
  · simp [he, hkey]
  · simp [he]

theorem ofWindow_kept_eq_nil {now : Int} (hcurrent : key ≠ s.writer.reference now)
    (hnext : key ≠ s.writer.reference now + s.writer.interval.millis) :
    Event.ofWindow s.writer.interval (s.kept (.drain now)) key = [] := by
  unfold Event.ofWindow
  rw [List.filter_eq_nil_iff]
  intro e he hwindow
  have hwindow : e.window s.writer.interval = key := of_decide_eq_true hwindow
  rw [kept] at he
  split at he
  · have hw := of_decide_eq_true (List.mem_filter.mp he).2
    rw [hwindow] at hw
    exact hw.elim hcurrent hnext
  · cases he

/-- Without failures to come, a drain that does not break off has batches that can be written. -/
theorem not_unwritable {now : Int} (hfaultless : s.log.faults = .none)
    (hwhole : ¬s.BreaksOff now)
    (hkey : key = s.writer.reference now ∨
      key = s.writer.reference now + s.writer.interval.millis) :
    ¬EventLog.Unwritable s.log.strictNames (s.drainedFor key) := by
  intro hbad
  have htorn : s.Torn key := by
    refine ⟨?_, hbad⟩
    rw [hfaultless]
    exact List.not_mem_nil
  rcases hkey with rfl | rfl
  · exact hwhole (Or.inl htorn)
  · exact hwhole (Or.inr htorn)

/-- A drain adds what is not stale to the logs of its windows. -/
theorem written_routed {now : Int} (h : s.Written group (closed s.writer.lastReference))
    (hon : s.writer.enabled = true) (hwhole : ¬s.BreaksOff now)
    (hfirst : s.writer.lastReference = none → ∀ k, group k = [])
    (hmono : ∀ r, s.writer.lastReference = some r → r ≤ s.writer.reference now)
    (htime : ∀ e ∈ s.kept (.drain now), e.emittedAt < Nat.pow 2 63) :
    (s.routed now).Written
      (fun k => group k ++ Event.ofWindow s.writer.interval (s.kept (.drain now)) k)
      (closed (some (s.writer.reference now))) := by
  have hpos := s.writer.interval.pos
  have hbegun : (s.begun now).Written group (closed (s.begun now).writer.lastReference) :=
    ⟨h.log, h.openKeys⟩
  have hrotated : (s.rotated now).Written group (closed (some (s.writer.reference now))) :=
    written_rotate hbegun hfirst hmono
  have hfits (k : Int)
      (hne : Event.ofWindow s.writer.interval (s.kept (.drain now)) k ≠ []) :
      0 ≤ k ∧ fitsBits 64 k = true := by
    obtain ⟨e, he⟩ := List.exists_mem_of_ne_nil _ hne
    obtain ⟨he, hwindow⟩ := List.mem_filter.mp he
    have hwindow : e.window s.writer.interval = k := of_decide_eq_true hwindow
    rw [← hwindow]
    exact Event.window_fits _ (htime e he)
  have hcurrent := mem_drainedFor now hon (Or.inl rfl)
  have hnext := mem_drainedFor now hon (Or.inr rfl)
  have hcurrentFits := hfits (s.writer.reference now)
  have hnextFits := hfits (s.writer.reference now + s.writer.interval.millis)
  rw [← hcurrent] at hcurrentFits
  rw [← hnext] at hnextFits
  -- The rotation closes only windows before these two.
  obtain ⟨h₁, h₂, _⟩ := s.onlyLogs_appended now
  have hnames₁ : (s.rotated now).log.strictNames = s.log.strictNames := h₁.strictNames
  have hnames₂ : (s.halfRouted now).log.strictNames = s.log.strictNames := (h₁.trans h₂).strictNames
  have hhalf := written_appendBatch hrotated (decide_eq_false (Int.lt_irrefl _)) hcurrentFits
    (by rw [hnames₁]; exact not_unwritable h.log.faultless hwhole (Or.inl rfl))
  have hboth := written_appendBatch (s := s.halfRouted now) hhalf (decide_eq_false (by omega))
    hnextFits (by rw [hnames₂]; exact not_unwritable h.log.faultless hwhole (Or.inr rfl))
  -- What is kept lies in one of the two windows, so the two appended batches are all of it.
  have hgroups : (fun k => if k = s.writer.reference now + s.writer.interval.millis then
        (if k = s.writer.reference now then group k ++ s.drainedFor (s.writer.reference now)
          else group k) ++ s.drainedFor (s.writer.reference now + s.writer.interval.millis)
      else if k = s.writer.reference now then group k ++ s.drainedFor (s.writer.reference now)
      else group k) =
      fun k => group k ++ Event.ofWindow s.writer.interval (s.kept (.drain now)) k := by
    funext k
    by_cases hk : k = s.writer.reference now
    · have hother : k ≠ s.writer.reference now + s.writer.interval.millis := by omega
      rw [if_neg hother, if_pos hk, hcurrent, hk]
    · rw [if_neg hk]
      by_cases hk' : k = s.writer.reference now + s.writer.interval.millis
      · rw [if_pos hk', hnext, hk']
      · rw [if_neg hk', ofWindow_kept_eq_nil hk hk', List.append_nil]
  have hupcoming : s.upcoming now =
      s.drainedFor (s.writer.reference now + s.writer.interval.millis) :=
    if_neg fun htorn => hwhole (Or.inl htorn)
  rw [← hgroups]
  refine ⟨?_, ?_⟩
  · rw [log_routed, appended, hupcoming]
    exact hboth.log
  · rw [openKeys_routed, appended, hupcoming]
    exact hboth.openKeys

theorem lastReference_cleanup (now : Int) :
    (s.cleanup now).1.writer.lastReference = s.writer.lastReference := by
  cases h : s.cleanup now with
  | mk t outcome =>
    have hcase := s.cleanup_cleanup now
    rw [h] at hcase
    cases hcase <;> rfl

/-- The logs hold `group`, of which windows before the last reference window are closed. -/
structure UpToDate (s : Ingestion) (group : Int → List Event) : Prop where
  written : s.Written group (closed s.writer.lastReference)
  unstarted : s.writer.lastReference = none → ∀ k, group k = []

theorem upToDate_drain {now : Int} (h : s.UpToDate group)
    (hmono : ∀ r, s.writer.lastReference = some r → r ≤ s.writer.reference now)
    (hwhole : ¬s.Aborts (.drain now))
    (htime : ∀ e ∈ s.kept (.drain now), e.emittedAt < Nat.pow 2 63)
    (hnone : s.reportedDeleted (.drain now) = []) :
    (s.drain now).1.UpToDate
      fun k => group k ++ Event.ofWindow s.writer.interval (s.kept (.drain now)) k := by
  by_cases hon : s.writer.enabled = true
  · have hwhole : ¬s.BreaksOff now := fun hbreaks => hwhole ⟨hon, hbreaks⟩
    have hrouted := written_routed h.written hon hwhole h.unstarted hmono htime
    have hcleaned := written_cleanup now hrouted (by
      intro deleted hdeleted
      rw [reportedDeleted_drain hon hwhole, reportedDeleted, hdeleted] at hnone
      exact hnone)
    have hlast : ((s.routed now).cleanup now).1.writer.lastReference =
        some (s.writer.reference now) := by
      rw [lastReference_cleanup, lastReference_routed, if_neg hwhole]
    rw [drain_of_enabled now hon hwhole]
    refine ⟨?_, ?_⟩
    · rw [hlast]
      exact hcleaned
    · intro hnone
      rw [hlast] at hnone
      cases hnone
  · have hkept : s.kept (.drain now) = [] := if_neg hon
    rw [drain_of_not_enabled now hon, hkept]
    simp only [Event.ofWindow, List.filter_nil, List.append_nil]
    exact ⟨⟨h.written.log, h.written.openKeys⟩, h.unstarted⟩

theorem upToDate_act {a : Action} (h : s.UpToDate group) (hfail : ∀ faults, a ≠ .fail faults)
    (hmono : ∀ now, a = .drain now → ∀ r, s.writer.lastReference = some r →
      r ≤ s.writer.reference now)
    (hwhole : ¬s.Aborts a) (htime : ∀ e ∈ s.kept a, e.emittedAt < Nat.pow 2 63)
    (hnone : s.reportedDeleted a = []) :
    (s.act a).UpToDate fun k => group k ++ Event.ofWindow s.writer.interval (s.kept a) k := by
  cases a with
  | drain now => exact upToDate_drain h (hmono now rfl) hwhole htime hnone
  | cleanup now =>
    simp only [kept, Event.ofWindow, List.filter_nil, List.append_nil]
    have hlast : (s.cleanup now).1.writer.lastReference = s.writer.lastReference :=
      lastReference_cleanup now
    have hcleaned := written_cleanup now h.written (by
      intro deleted hdeleted
      rw [reportedDeleted, hdeleted] at hnone
      exact hnone)
    refine ⟨?_, ?_⟩
    · change (s.cleanup now).1.Written group (closed (s.cleanup now).1.writer.lastReference)
      rw [hlast]
      exact hcleaned
    · intro hnone
      exact h.unstarted (hlast.symm.trans hnone)
  | put o =>
    simp only [kept, Event.ofWindow, List.filter_nil, List.append_nil]
    exact ⟨⟨h.written.log, h.written.openKeys⟩, h.unstarted⟩
  | enable on =>
    simp only [kept, Event.ofWindow, List.filter_nil, List.append_nil]
    exact ⟨⟨h.written.log, h.written.openKeys⟩, h.unstarted⟩
  | fail faults => exact absurd rfl (hfail faults)

theorem lastReference_act (a : Action) (r : Int) (h : (s.act a).writer.lastReference = some r) :
    s.writer.lastReference = some r ∨ ∃ now, a = .drain now ∧ r = s.writer.reference now := by
  cases a with
  | drain now =>
    by_cases hon : s.writer.enabled = true
    · have hrouted (hr : (s.routed now).writer.lastReference = some r) :
          s.writer.lastReference = some r ∨
            ∃ now', Action.drain now = .drain now' ∧ r = s.writer.reference now' := by
        rw [lastReference_routed] at hr
        split at hr
        · exact Or.inl hr
        · exact Or.inr ⟨now, rfl, (Option.some.inj hr).symm⟩
      change (s.drain now).1.writer.lastReference = some r at h
      revert h
      exact drain_cases (P := fun t => t.writer.lastReference = some r → _) now hon
        (fun _ => hrouted) fun _ h => hrouted ((lastReference_cleanup now).symm.trans h)
    · change (s.drain now).1.writer.lastReference = some r at h
      rw [drain_of_not_enabled now hon] at h
      exact Or.inl h
  | cleanup now =>
    change (s.cleanup now).1.writer.lastReference = some r at h
    rw [lastReference_cleanup] at h
    exact Or.inl h
  | put o => exact Or.inl h
  | enable on => exact Or.inl h
  | fail faults => exact Or.inl h

end Steps

/-- Runs of a writer that has not drained yet and begins with an empty directory. -/
structure Begins (s : Ingestion) : Prop where
  directory : s.log.directory = ∅
  faultless : s.log.faults = .none
  lastReference : s.writer.lastReference = none
  openKeys : s.writer.openKeys = ∅

theorem upToDate_of_begins (h : s.Begins) : s.UpToDate fun _ => [] := by
  refine ⟨⟨⟨?_, ?_, ?_⟩, ?_⟩, fun _ _ => rfl⟩
  · intro name entry hget
    rw [h.directory] at hget
    cases hget
  · exact h.faultless
  · intro k b
    unfold EventLog.logAt
    rw [h.directory]
    rfl
  · intro k
    rw [h.openKeys]
    simp

/-- The drains of a run that break off. -/
def aborted (s : Ingestion) (a : Action) : List Action := if s.Aborts a then [a] else []

theorem aborted_eq_nil_iff {a : Action} : s.aborted a = [] ↔ ¬s.Aborts a := by
  unfold aborted
  split <;> simp_all

/-- A drain breaks off only at an event that is not stale and cannot be written. -/
theorem not_aborts_of_writable {a : Action}
    (h : ∀ e ∈ s.kept a, e.isWritable s.log.strictNames = true) : ¬s.Aborts a := by
  cases a with
  | drain now =>
    rintro ⟨hon, hbreaks⟩
    have hgood {key : Int} (hkey : key = s.writer.reference now ∨
        key = s.writer.reference now + s.writer.interval.millis) : ¬s.Torn key := by
      rintro ⟨_, e, he, hbad⟩
      rw [mem_drainedFor now hon hkey] at he
      rw [h e (Event.mem_ofWindow.mp he).1] at hbad
      cases hbad
    exact hbreaks.elim (hgood (Or.inl rfl)) (hgood (Or.inr rfl))
  | _ => exact id

/-- A drain of events that can all be written does not break off. -/
theorem not_breaksOff_of_writable {now : Int}
    (h : ∀ e ∈ s.queue.events, e.isWritable s.log.strictNames = true) : ¬s.BreaksOff now := by
  have hgood (key : Int) : ¬s.Torn key := by
    rintro ⟨_, e, he, hbad⟩
    rw [h e (List.mem_filter.mp he).1] at hbad
    cases hbad
  exact fun hbreaks => hbreaks.elim (hgood _) (hgood _)

theorem aborted_eq_nil (actions : List Action)
    (h : ∀ e ∈ observe kept s actions, e.isWritable s.log.strictNames = true) :
    observe aborted s actions = [] := by
  induction actions generalizing s with
  | nil => rfl
  | cons a rest ih =>
    rw [observe] at h ⊢
    rw [aborted_eq_nil_iff.mpr (not_aborts_of_writable fun e he => h e (List.mem_append_left _ he)),
      List.nil_append]
    refine ih fun e he => ?_
    rw [strictNames_act]
    exact h e (List.mem_append_right _ he)

/-- In a run without failures in which no drain breaks off and no log is deleted, the logs hold all
events that were not stale when they were drained. -/
theorem upToDate_perform (hbegins : s.Begins) (actions : List Action)
    (hfail : ∀ faults, .fail faults ∉ actions)
    (hclock : (drainTimes actions).Pairwise (· ≤ ·)) (hwhole : observe aborted s actions = [])
    (htime : ∀ e ∈ observe kept s actions, e.emittedAt < Nat.pow 2 63)
    (hnone : observe reportedDeleted s actions = []) :
    (s.perform actions).UpToDate (Event.ofWindow s.writer.interval (observe kept s actions)) ∧
      ∀ r, (s.perform actions).writer.lastReference = some r →
        ∃ t ∈ drainTimes actions, r = s.writer.reference t := by
  -- By induction on the run from its end. That the last reference window is the one of an earlier
  -- drain says that the next drain is not behind it.
  induction actions using List.reverseRecOn with
  | nil =>
    refine ⟨upToDate_of_begins hbegins, ?_⟩
    intro r hr
    change s.writer.lastReference = some r at hr
    rw [hbegins.lastReference] at hr
    cases hr
  | append_singleton earlier a ih =>
    rw [drainTimes_concat, List.pairwise_append] at hclock
    obtain ⟨hearlier, _, hlast⟩ := hclock
    rw [observe_concat, List.append_eq_nil_iff] at hnone hwhole
    rw [observe_concat] at htime
    obtain ⟨hdate, hreference⟩ := ih
      (fun faults hmem => hfail faults (List.mem_append_left _ hmem)) hearlier hwhole.1
      (fun e he => htime e (List.mem_append_left _ he)) hnone.1
    have hcomplete : ¬(s.perform earlier).Aborts a := aborted_eq_nil_iff.mp hwhole.2
    have hinterval : (s.perform earlier).writer.interval = s.writer.interval :=
      congrArg WriterSettings.interval (s.settings_perform earlier)
    refine ⟨?_, ?_⟩
    · have hact := upToDate_act (a := a) hdate
        (fun faults heq => hfail faults (List.mem_append_right _ (heq ▸ .head _)))
        (by
          rintro now rfl r hr
          obtain ⟨t, ht, rfl⟩ := hreference r hr
          rw [reference_perform]
          exact reference_mono s.writer (hlast t ht now (.head _)))
        hcomplete (fun e he => htime e (List.mem_append_right _ he)) hnone.2
      rw [hinterval] at hact
      rw [perform_concat, observe_concat]
      have hgroups : Event.ofWindow s.writer.interval
          (observe kept s earlier ++ (s.perform earlier).kept a) = fun k =>
            Event.ofWindow s.writer.interval (observe kept s earlier) k ++
              Event.ofWindow s.writer.interval ((s.perform earlier).kept a) k := by
        funext k
        exact List.filter_append _ _
      rw [hgroups]
      exact hact
    · intro r hr
      rw [perform_concat] at hr
      rw [drainTimes_concat]
      rcases lastReference_act a r hr with hr | ⟨now, rfl, rfl⟩
      · obtain ⟨t, ht, heq⟩ := hreference r hr
        exact ⟨t, List.mem_append_left _ ht, heq⟩
      · exact ⟨now, List.mem_append_right _ (.head _), reference_perform s earlier now⟩

end Ingestion

end RequestWindows
