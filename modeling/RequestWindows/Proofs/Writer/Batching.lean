import RequestWindows.Proofs.Writer.Ledger
import RequestWindows.Proofs.Writer.Routing

/-! The second of two drains in one reference window does not rotate, and what the cleanup of the
first deletes is older than anything that is written to: so the two come to the same as one
drain. -/
namespace RequestWindows

namespace Writer

/-- A cleanup that finds the horizon at `last` is refused: it is due, and the windows from there on
are too many to list. -/
def Refuses (w : Writer) (now last : Int) : Prop :=
  w.settings.cleanupPeriod < w.retentionHorizon now - last ∧
    w.listLimit ≤ w.interval.countBetween (w.interval.key last) (w.retentionHorizon now)

instance (w : Writer) (now last : Int) : Decidable (w.Refuses now last) :=
  inferInstanceAs (Decidable (_ ∧ _))

variable {w w' : Writer} {t now last last' : Int}

theorem refuses_congr (h : w.settings = w'.settings) :
    w.Refuses now last ↔ w'.Refuses now last := by
  unfold Refuses retentionHorizon interval listLimit
  rw [h]

/-- What is refused stays so later, and with more windows to list. -/
theorem Refuses.mono (h : w.Refuses t last') (htime : t ≤ now)
    (hdue : w.settings.cleanupPeriod < w.retentionHorizon now - last)
    (hlast : w.interval.key last ≤ last') : w.Refuses now last := by
  have hstart : w.interval.key last ≤ w.interval.key last' := by
    rw [← Interval.key_eq_self (w.interval.aligned_key last)]
    exact w.interval.key_mono hlast
  have hstop := Ingestion.retentionHorizon_mono w htime
  exact ⟨hdue, Nat.le_trans h.2 (Interval.countBetween_mono hstart hstop)⟩

end Writer

namespace Ingestion

variable {s : Ingestion} {now : Int}

theorem perform_append (s : Ingestion) (actions more : List Action) :
    s.perform (actions ++ more) = (s.perform actions).perform more := List.foldl_append

/-- Offer some events to the queue, one after another. -/
def offerAll (events : List Event) : List Action := events.map fun e => .put (.event e)

/-- Where there is room for them, events that are offered to the queue only get into the queue. -/
theorem perform_offerAll {s : Ingestion} (events : List Event)
    (hroom : s.queue.events.length + events.length ≤ s.queue.capacity) :
    ∃ queue, s.perform (offerAll events) = { s with queue } ∧
      queue.events = s.queue.events ++ events := by
  induction events generalizing s with
  | nil => exact ⟨s.queue, rfl, (List.append_nil _).symm⟩
  | cons e rest ih =>
    rw [List.length_cons] at hroom
    have hcase := s.put_offers (.event e)
    cases hp : s.put (.event e) with
    | mk t answer =>
      rw [hp] at hcase
      cases hcase with
      | malformed hnone => cases hnone
      | overflow _ hfull =>
        have hlength := EventQueue.push?_eq_none_iff.mp hfull
        omega
      | @taken e' queue hevent hpushed =>
        cases hevent
        have hevents := EventQueue.events_of_push? hpushed
        have hcapacity := EventQueue.capacity_of_push? hpushed
        have hrest : queue.events.length + rest.length ≤ queue.capacity := by
          rw [hevents, hcapacity, List.length_append]
          exact Nat.le_trans (Nat.le_of_eq (by simp; omega)) hroom
        obtain ⟨last, hperform, hlast⟩ := ih (s := { s with queue }) hrest
        refine ⟨last, ?_, ?_⟩
        · change (s.put (.event e)).1.perform (offerAll rest) = _
          rw [hp]
          exact hperform
        · rw [hlast, hevents, List.append_assoc]
          rfl

section Refusal

/-- A drain that does not break off reports nothing when its cleanup is refused. -/
theorem drain_refused_iff (hon : s.writer.enabled = true) (hwhole : ¬s.BreaksOff now) :
    (∃ e, (s.drain now).2 = .error e) ↔
      s.writer.Refuses now (s.writer.horizon.getD (s.writer.reference now)) := by
  have hcleanup : (∃ e, (s.drain now).2 = .error e) ↔
      ∃ e, ((s.routed now).cleanup now).2 = .error e := by
    rw [drain_of_enabled now hon hwhole]
    cases ((s.routed now).cleanup now).2 <;> simp [Except.map, Except.mapError]
  have hhorizon := (s.onlyLogs_routed now).2.2.2.2.2.1
  rw [hcleanup, cleanup_refused_iff, hhorizon, ← Writer.refuses_congr (settings_routed now)]
  constructor
  · rintro ⟨_, ⟨rfl⟩, hrefuses⟩
    exact hrefuses
  · intro hrefuses
    exact ⟨_, rfl, hrefuses⟩

/-- A drain leaves the horizon where it was, unless its cleanup is due; that does not move it behind
the window that it was in. -/
theorem horizon_drain (now : Int) (hon : s.writer.enabled = true) (hwhole : ¬s.BreaksOff now)
    (hperiod : 0 ≤ s.writer.settings.cleanupPeriod) :
    let last := s.writer.horizon.getD (s.writer.reference now)
    ∃ last', (s.drain now).1.writer.horizon = some last' ∧
      (last' = last ∨ s.writer.settings.cleanupPeriod < s.writer.retentionHorizon now - last ∧
        s.writer.interval.key last ≤ last') := by
  intro last
  have hhorizon : (s.routed now).writer.horizon = some last :=
    (s.onlyLogs_routed now).2.2.2.2.2.1
  have hsettings : (s.routed now).writer.settings = s.writer.settings := settings_routed now
  rw [drain_of_enabled now hon hwhole]
  have hcase := (s.routed now).cleanup_cleanup now
  cases hc : (s.routed now).cleanup now with
  | mk t outcome =>
    rw [hc] at hcase
    cases hcase with
    | unstarted hnone =>
      rw [hhorizon] at hnone
      cases hnone
    | early _ _ => exact ⟨last, hhorizon, Or.inl rfl⟩
    | refused _ _ _ => exact ⟨last, hhorizon, Or.inl rfl⟩
    | @due last' hlast' hmoved _ =>
      rw [hhorizon] at hlast'
      cases hlast'
      refine ⟨_, horizon_expire _ _ _, Or.inr ?_⟩
      unfold Writer.retentionHorizon Writer.interval at *
      rw [hsettings] at hmoved ⊢
      refine ⟨hmoved, ?_⟩
      rcases least?_getD_mem _ (s.writer.settings.interval.key (now - s.writer.settings.retention))
        with heq | hmem
      · rw [heq]
        have hkey := s.writer.settings.interval.key_le last
        omega
      · -- What could not be deleted is one of the windows from the last horizon on.
        obtain ⟨⟨gone, hgone⟩, _⟩ := (s.routed now).log.delete_deleted
          (s.writer.settings.interval.keysBetween (s.writer.settings.interval.key last)
            (s.writer.settings.interval.key (now - s.writer.settings.retention)))
        exact Interval.start_le_of_mem_keysBetween (hgone.failed_mem _ hmem)

/-- A drain reports nothing exactly when a cleanup in its place would be refused: one that starts
the horizon has nothing to delete. -/
theorem drain_refused_iff_of_period (hon : s.writer.enabled = true) (hwhole : ¬s.BreaksOff now)
    (hperiod : 0 ≤ s.writer.settings.cleanupPeriod) :
    (∃ e, (s.drain now).2 = .error e) ↔
      ∃ last, s.writer.horizon = some last ∧ s.writer.Refuses now last := by
  rw [drain_refused_iff hon hwhole]
  cases hlast : s.writer.horizon with
  | some last => simp
  | none =>
    -- The horizon starts at the reference window, and what lies before it is not due.
    have hbefore := retentionHorizon_lt_reference s.writer now
    constructor
    · rintro ⟨hdue, _⟩
      rw [Option.getD_none] at hdue
      omega
    · rintro ⟨_, hnone, _⟩
      cases hnone

end Refusal

/-- A drain of `s₁` and, in the same reference window, a drain of what it leaves, with other
events in the queue, which is `s₂`; and a drain of `u`, which is `s₁` with the events of both in
its queue. -/
structure SplitDrain (s₁ s₂ u : Ingestion) (now₁ now₂ : Int) : Prop where
  enabled : s₁.writer.enabled = true
  settled : s₁.Settled
  faultless : s₁.log.faults = .none
  period : 0 ≤ s₁.writer.settings.cleanupPeriod
  clock : now₁ ≤ now₂
  window : s₁.writer.interval.key now₁ = s₁.writer.interval.key now₂
  log_later : s₂.log = (s₁.drain now₁).1.log
  writer_later : s₂.writer = (s₁.drain now₁).1.writer
  counters_later : s₂.counters = (s₁.drain now₁).1.counters
  log_joint : u.log = s₁.log
  writer_joint : u.writer = s₁.writer
  counters_joint : u.counters = s₁.counters
  queue_joint : u.queue.events = s₁.queue.events ++ s₂.queue.events
  whole : ¬u.BreaksOff now₂

namespace SplitDrain

variable {s₁ s₂ u : Ingestion} {now₁ now₂ k : Int}

section States

theorem settings_later (h : SplitDrain s₁ s₂ u now₁ now₂) :
    s₂.writer.settings = s₁.writer.settings := by
  rw [h.writer_later]
  exact s₁.settings_act (.drain now₁)

theorem interval_later (h : SplitDrain s₁ s₂ u now₁ now₂) :
    s₂.writer.interval = s₁.writer.interval := congrArg WriterSettings.interval h.settings_later

/-- The events for a window that are drained at once are those of the two drains, in order. -/
theorem drainedFor_joint (h : SplitDrain s₁ s₂ u now₁ now₂) (k : Int) :
    u.drainedFor k = s₁.drainedFor k ++ s₂.drainedFor k := by
  unfold drainedFor
  rw [h.queue_joint, h.writer_joint, h.interval_later, List.filter_append]

/-- What makes one of the two drains break off would make the one drain break off. -/
theorem torn_joint (h : SplitDrain s₁ s₂ u now₁ now₂) {k : Int} :
    s₁.Torn k ∨ s₂.Torn k → u.Torn k := by
  have hfaults : s₂.log.faults = s₁.log.faults := by
    rw [h.log_later]
    exact s₁.faults_drain now₁
  have hnames : s₂.log.strictNames = s₁.log.strictNames := by
    rw [h.log_later]
    exact s₁.strictNames_act (.drain now₁)
  unfold Torn EventLog.Unwritable
  rw [h.log_joint, h.drainedFor_joint, hfaults, hnames]
  rintro (⟨hfault, e, he, hbad⟩ | ⟨hfault, e, he, hbad⟩)
  · exact ⟨hfault, e, List.mem_append_left _ he, hbad⟩
  · exact ⟨hfault, e, List.mem_append_right _ he, hbad⟩

theorem enabled_joint (h : SplitDrain s₁ s₂ u now₁ now₂) : u.writer.enabled = true := by
  rw [h.writer_joint]
  exact h.enabled

theorem reference_joint (h : SplitDrain s₁ s₂ u now₁ now₂) :
    u.writer.reference now₂ = s₁.writer.reference now₁ := by
  unfold Writer.reference
  rw [h.writer_joint, h.window]

theorem reference_later (h : SplitDrain s₁ s₂ u now₁ now₂) :
    s₂.writer.reference now₂ = s₁.writer.reference now₁ := by
  have hwindow := h.window
  unfold Writer.reference Writer.interval at *
  rw [h.settings_later, hwindow]

theorem smooth_first (h : SplitDrain s₁ s₂ u now₁ now₂) : s₁.Smooth now₁ := by
  refine ⟨by rw [h.faultless]; rfl, fun hbreaks => h.whole ?_⟩
  unfold BreaksOff at hbreaks ⊢
  rw [h.reference_joint, h.writer_joint]
  exact hbreaks.imp (fun htorn => h.torn_joint (Or.inl htorn))
    fun htorn => h.torn_joint (Or.inl htorn)

theorem smooth_later (h : SplitDrain s₁ s₂ u now₁ now₂) : s₂.Smooth now₂ := by
  have hfaults : s₂.log.faults = s₁.log.faults := by
    rw [h.log_later]
    exact s₁.faults_drain now₁
  refine ⟨by rw [hfaults, h.faultless]; rfl, fun hbreaks => h.whole ?_⟩
  unfold BreaksOff at hbreaks ⊢
  rw [h.reference_later, h.interval_later] at hbreaks
  rw [h.reference_joint, h.writer_joint]
  exact hbreaks.imp (fun htorn => h.torn_joint (Or.inr htorn))
    fun htorn => h.torn_joint (Or.inr htorn)

theorem smooth_joint (h : SplitDrain s₁ s₂ u now₁ now₂) : u.Smooth now₂ := by
  refine ⟨?_, h.whole⟩
  rw [h.log_joint, h.faultless]
  rfl

theorem enabled_later (h : SplitDrain s₁ s₂ u now₁ now₂) : s₂.writer.enabled = true := by
  rw [h.writer_later, drain_of_enabled now₁ h.enabled h.smooth_first.whole, enabled_cleanup]
  exact (s₁.onlyLogs_routed now₁).2.2.2.2.1.trans h.enabled

theorem retentionHorizon_later (h : SplitDrain s₁ s₂ u now₁ now₂) (now : Int) :
    s₂.writer.retentionHorizon now = s₁.writer.retentionHorizon now := by
  unfold Writer.retentionHorizon Writer.interval
  rw [h.settings_later]

theorem lastReference_later (h : SplitDrain s₁ s₂ u now₁ now₂) :
    s₂.writer.lastReference = some (s₂.writer.reference now₂) := by
  have hwhole := h.smooth_first.whole
  rw [h.reference_later, h.writer_later, drain_of_enabled now₁ h.enabled hwhole,
    lastReference_cleanup, lastReference_routed, if_neg hwhole]

theorem rotated_joint (h : SplitDrain s₁ s₂ u now₁ now₂) :
    (u.rotated now₂).log = (s₁.rotated now₁).log ∧
      (u.rotated now₂).writer.openKeys = (s₁.rotated now₁).writer.openKeys ∧
      ((u.begun now₂).rotate (u.writer.reference now₂)).2 =
        ((s₁.begun now₁).rotate (s₁.writer.reference now₁)).2 := by
  apply rotated_congr
  · exact h.log_joint
  · rw [h.writer_joint]
  · rw [h.writer_joint]
  · exact h.reference_joint

/-- The second drain finds the logs as the first one leaves them. -/
theorem rotated_later (h : SplitDrain s₁ s₂ u now₁ now₂) :
    (s₂.rotated now₂).log = (s₁.drain now₁).1.log ∧
      (s₂.rotated now₂).writer.openKeys = (s₁.routed now₁).writer.openKeys ∧
      ((s₂.begun now₂).rotate (s₂.writer.reference now₂)).2 = [] := by
  unfold rotated
  rw [rotate_of_lastReference h.lastReference_later]
  refine ⟨h.log_later, ?_, rfl⟩
  change s₂.writer.openKeys = _
  rw [h.writer_later]
  exact openKeys_drain h.enabled h.smooth_first.whole h.settled h.faultless

theorem settled_later (h : SplitDrain s₁ s₂ u now₁ now₂) :
    s₂.Settled ∧ s₂.log.faults = .none := by
  have hfirst := h.settled.act (a := .drain now₁) h.faultless (fun _ => nofun)
    fun haborts => h.smooth_first.whole haborts.2
  unfold Settled
  rw [h.writer_later, h.log_later]
  exact hfirst

theorem settled_joint (h : SplitDrain s₁ s₂ u now₁ now₂) :
    u.Settled ∧ u.log.faults = .none := by
  unfold Settled
  rw [h.writer_joint, h.log_joint]
  exact ⟨h.settled, h.faultless⟩

theorem horizon_le (h : SplitDrain s₁ s₂ u now₁ now₂) :
    s₁.writer.retentionHorizon now₁ ≤ s₁.writer.retentionHorizon now₂ :=
  retentionHorizon_mono s₁.writer h.clock

theorem horizon_lt_reference (h : SplitDrain s₁ s₂ u now₁ now₂) :
    s₁.writer.retentionHorizon now₂ < s₁.writer.reference now₁ := by
  rw [← h.reference_joint, h.writer_joint]
  exact retentionHorizon_lt_reference s₁.writer now₂

theorem accepts_later (h : SplitDrain s₁ s₂ u now₁ now₂)
    (hk : s₁.writer.retentionHorizon now₂ ≤ k) :
    (s₂.rotated now₂).log.accepts k = (s₁.rotated now₁).log.accepts k := by
  rw [h.rotated_later.1]
  exact accepts_drain_of_le h.enabled h.smooth_first (Int.le_trans h.horizon_le hk)

end States

section Outcome

/-- The two drains leave what the one drain leaves in all logs that none of them deletes. -/
theorem logAt_eq (h : SplitDrain s₁ s₂ u now₁ now₂) (hk : s₁.writer.retentionHorizon now₂ ≤ k)
    (b : Bool) : (s₂.drain now₂).1.log.logAt k b = (u.drain now₂).1.log.logAt k b := by
  have hk₂ : s₂.writer.retentionHorizon now₂ ≤ k := by
    rw [h.retentionHorizon_later]
    exact hk
  have hku : u.writer.retentionHorizon now₂ ≤ k := by
    rw [h.writer_joint]
    exact hk
  have hfirst (b : Bool) : (s₂.rotated now₂).log.logAt k b = (s₁.routed now₁).log.logAt k b := by
    rw [h.rotated_later.1]
    exact logAt_drain_of_le h.enabled h.smooth_first.whole (Int.le_trans h.horizon_le hk) b
  rw [logAt_drain_of_le h.enabled_later h.smooth_later.whole hk₂,
    logAt_drain_of_le h.enabled_joint h.whole hku, logAt_routed h.smooth_later,
    logAt_routed h.smooth_joint, h.accepts_later hk, hfirst, hfirst, h.reference_later,
    h.reference_joint, h.interval_later, h.rotated_joint.1, h.writer_joint, h.drainedFor_joint,
    logAt_routed h.smooth_first, logAt_routed h.smooth_first]
  -- Only the open logs of two windows grow, in two steps here and in one there.
  by_cases hwritten : ((k = s₁.writer.reference now₁ ∨
      k = s₁.writer.reference now₁ + s₁.writer.interval.millis) ∧ b = false) ∧
        (s₁.rotated now₁).log.accepts k = true
  · have hopen := hwritten
    rw [hwritten.1.2] at hopen
    rw [if_pos hwritten, if_pos hwritten, if_pos hopen, EventLog.grown_grown]
  · rw [if_neg hwritten, if_neg hwritten, if_neg hwritten]

/-- The same windows count as open after the two drains as after the one. -/
theorem openKeys_eq (h : SplitDrain s₁ s₂ u now₁ now₂) :
    (s₂.drain now₂).1.writer.openKeys = (u.drain now₂).1.writer.openKeys := by
  have hlater := h.settled_later
  have hjoint := h.settled_joint
  ext1 k
  rw [openKeys_drain h.enabled_later h.smooth_later.whole hlater.1 hlater.2,
    openKeys_drain h.enabled_joint h.whole hjoint.1 hjoint.2,
    mem_openKeys_routed_of_whole h.smooth_later.whole, mem_openKeys_routed_of_whole h.whole,
    h.rotated_later.2.1, mem_openKeys_routed_of_whole h.smooth_first.whole, h.rotated_joint.2.1,
    h.reference_later, h.reference_joint, h.interval_later, h.writer_joint, h.drainedFor_joint,
    or_assoc, ← and_or_left]
  -- Events are drained for a window at once if they are in one of the two drains.
  simp only [ne_eq, List.append_eq_nil_iff, not_and_or]

/-- As many events are written to a window in two drains as in one. -/
theorem writtenTo_joint (h : SplitDrain s₁ s₂ u now₁ now₂)
    (hk : s₁.writer.retentionHorizon now₂ ≤ k) :
    u.writtenTo now₂ k = s₁.writtenTo now₁ k + s₂.writtenTo now₂ k := by
  unfold writtenTo
  rw [h.accepts_later hk, h.rotated_joint.1, h.drainedFor_joint, List.length_append]
  split <;> rfl

theorem written_joint (h : SplitDrain s₁ s₂ u now₁ now₂) :
    (u.batches .written (.drain now₂)).flatten.length =
      (s₁.batches .written (.drain now₁)).flatten.length +
        (s₂.batches .written (.drain now₂)).flatten.length := by
  have hpos := s₁.writer.interval.pos
  have hcurrent := Int.le_of_lt h.horizon_lt_reference
  have hnext : s₁.writer.retentionHorizon now₂ ≤
      s₁.writer.reference now₁ + s₁.writer.interval.millis := by
    omega
  rw [length_written_drain h.enabled h.smooth_first,
    length_written_drain h.enabled_later h.smooth_later,
    length_written_drain h.enabled_joint h.smooth_joint, h.reference_joint, h.reference_later,
    h.interval_later, h.writer_joint, h.writtenTo_joint hcurrent, h.writtenTo_joint hnext]
  omega

/-- The stale events that are drained at once are those of the two drains, in order. -/
theorem stale_joint (h : SplitDrain s₁ s₂ u now₁ now₂) :
    u.stale (.drain now₂) = s₁.stale (.drain now₁) ++ s₂.stale (.drain now₂) := by
  unfold stale
  rw [ofDrain_of_enabled h.enabled, ofDrain_of_enabled h.enabled_later,
    ofDrain_of_enabled h.enabled_joint]
  dsimp only
  rw [h.queue_joint, h.reference_joint, h.reference_later, h.interval_later, h.writer_joint,
    List.filter_append]

theorem sealings_joint (h : SplitDrain s₁ s₂ u now₁ now₂) :
    u.sealings (.drain now₂) = s₁.sealings (.drain now₁) ++ s₂.sealings (.drain now₂) := by
  change u.drainSeals now₂ = s₁.drainSeals now₁ ++ s₂.drainSeals now₂
  unfold drainSeals
  rw [if_pos h.enabled, if_pos h.enabled_later, if_pos h.enabled_joint, h.rotated_later.2.2,
    h.rotated_joint.2.2, List.append_nil]

/-- What is written, stale or sealed counts alike in the two drains and in the one. -/
theorem counters_eq (h : SplitDrain s₁ s₂ u now₁ now₂) {c : Counter}
    (hc : c = .eventsWritten ∨ c = .staleEvents ∨ c = .windowsSealed)
    (hsplit : (s₂.drain now₂).1.counters.get c < Nat.pow 2 53)
    (hjoint : (u.drain now₂).1.counters.get c < Nat.pow 2 53) :
    (s₂.drain now₂).1.counters.get c = (u.drain now₂).1.counters.get c := by
  have hfirst : s₁.counters.Gains (s₁.drain now₁).1.counters (s₁.tallies [.drain now₁]) :=
    counts_drain h.enabled
  have hsecond : s₂.counters.Gains (s₂.drain now₂).1.counters (s₂.tallies [.drain now₂]) :=
    counts_drain h.enabled_later
  have hboth : u.counters.Gains (u.drain now₂).1.counters (u.tallies [.drain now₂]) :=
    counts_drain h.enabled_joint
  -- Both runs begin with the same counters, so only what they add has to be compared.
  rw [h.counters_later] at hsecond
  rw [h.counters_joint] at hboth
  have htallies : u.tallies [.drain now₂] c =
      s₁.tallies [.drain now₁] c + s₂.tallies [.drain now₂] c := by
    rcases hc with rfl | rfl | rfl
    · simp only [tallies, observe_singleton, h.written_joint]
    · simp only [tallies, observe_singleton, h.stale_joint, List.length_append]
    · simp only [tallies, observe_singleton, h.sealings_joint, List.length_append]
  rw [hfirst.trans hsecond c hsplit, hboth c hjoint, htallies]

end Outcome

section Reports

/-- If the one drain reports something, so does each of the two. -/
theorem refused_joint (h : SplitDrain s₁ s₂ u now₁ now₂)
    (hrefused : (∃ e, (s₁.drain now₁).2 = .error e) ∨ ∃ e, (s₂.drain now₂).2 = .error e) :
    ∃ e, (u.drain now₂).2 = .error e := by
  let last := s₁.writer.horizon.getD (s₁.writer.reference now₁)
  have hstart := s₁.writer.interval.key_le last
  have hmono := h.horizon_le
  have hperiod := h.period
  rw [drain_refused_iff h.enabled_joint h.whole, h.reference_joint, h.writer_joint]
  rcases hrefused with hfirst | hsecond
  · rw [drain_refused_iff h.enabled h.smooth_first.whole] at hfirst
    have hdue := hfirst.1
    exact hfirst.mono h.clock (by omega) hstart
  · -- The second drain has no more windows to list, because the first one cannot leave the horizon
    -- further back than it was.
    obtain ⟨last', hlast', hmoved⟩ := horizon_drain now₁ h.enabled h.smooth_first.whole h.period
    rw [drain_refused_iff h.enabled_later h.smooth_later.whole,
      Writer.refuses_congr h.settings_later, h.writer_later, hlast', Option.getD_some] at hsecond
    rcases hmoved with rfl | ⟨hdue, hnot⟩
    · exact hsecond
    · exact hsecond.mono (Int.le_refl _) (by omega) hnot

/-- Where the one drain reports something, the two report as many events in sum. -/
theorem reports_joint (h : SplitDrain s₁ s₂ u now₁ now₂) {r : DrainReport}
    (hr : (u.drain now₂).2 = .ok r) :
    ∃ r₁ r₂, (s₁.drain now₁).2 = .ok r₁ ∧ (s₂.drain now₂).2 = .ok r₂ ∧
      r₁.writtenCurrent + r₂.writtenCurrent = r.writtenCurrent ∧
      r₁.writtenNext + r₂.writtenNext = r.writtenNext ∧ r₁.stale + r₂.stale = r.stale := by
  have hnone : ¬∃ e, (u.drain now₂).2 = .error e := by
    rintro ⟨e, he⟩
    rw [hr] at he
    cases he
  have hallowed := mt h.refused_joint hnone
  rw [not_or] at hallowed
  cases hfirst : (s₁.drain now₁).2 with
  | error e => exact absurd ⟨e, hfirst⟩ hallowed.1
  | ok r₁ =>
    cases hsecond : (s₂.drain now₂).2 with
    | error e => exact absurd ⟨e, hsecond⟩ hallowed.2
    | ok r₂ =>
      have hpos := s₁.writer.interval.pos
      have hbefore := h.horizon_lt_reference
      obtain ⟨hcurrent₁, hnext₁, hstale₁⟩ := written_of_report h.enabled h.smooth_first hfirst
      obtain ⟨hcurrent₂, hnext₂, hstale₂⟩ :=
        written_of_report h.enabled_later h.smooth_later hsecond
      obtain ⟨hcurrent, hnext, hstale⟩ := written_of_report h.enabled_joint h.smooth_joint hr
      rw [h.reference_later] at hcurrent₂ hnext₂
      rw [h.reference_joint, h.writtenTo_joint (by omega)] at hcurrent
      rw [h.reference_joint, h.writer_joint, h.writtenTo_joint (by omega)] at hnext
      rw [h.interval_later] at hnext₂
      rw [h.stale_joint, List.length_append] at hstale
      exact ⟨r₁, r₂, rfl, rfl, by omega, by omega, by omega⟩

end Reports

end SplitDrain

/-- Two drains, of `s₁` and then of `s₂`, come to what one drain of `u` comes to. -/
structure DrainAlike (s₁ s₂ u : Ingestion) (now₁ now₂ : Int) : Prop where
  queues : (s₂.drain now₂).1.queue.events = [] ∧ (u.drain now₂).1.queue.events = []
  /-- The logs of the windows that are too young to be deleted are the same, open or sealed. -/
  logs : ∀ k b, u.writer.retentionHorizon now₂ ≤ k →
    (s₂.drain now₂).1.log.logAt k b = (u.drain now₂).1.log.logAt k b
  openKeys : (s₂.drain now₂).1.writer.openKeys = (u.drain now₂).1.writer.openKeys
  /-- What is written, stale or sealed counts alike, while the counters are exact. -/
  counters : ∀ c, c = .eventsWritten ∨ c = .staleEvents ∨ c = .windowsSealed →
    (s₂.drain now₂).1.counters.get c < Nat.pow 2 53 →
    (u.drain now₂).1.counters.get c < Nat.pow 2 53 →
    (s₂.drain now₂).1.counters.get c = (u.drain now₂).1.counters.get c
  /-- All drains report, with the same sums, unless a cleanup at the later time is refused. -/
  reports : (∃ r₁ r₂ r, (s₁.drain now₁).2 = .ok r₁ ∧ (s₂.drain now₂).2 = .ok r₂ ∧
      (u.drain now₂).2 = .ok r ∧ r₁.writtenCurrent + r₂.writtenCurrent = r.writtenCurrent ∧
      r₁.writtenNext + r₂.writtenNext = r.writtenNext ∧ r₁.stale + r₂.stale = r.stale) ↔
    ¬∃ last, u.writer.horizon = some last ∧ u.writer.Refuses now₂ last

theorem SplitDrain.drainAlike {s₁ s₂ u : Ingestion} {now₁ now₂ : Int}
    (h : SplitDrain s₁ s₂ u now₁ now₂) : DrainAlike s₁ s₂ u now₁ now₂ := by
  refine
    { queues := ⟨?_, ?_⟩
      logs := ?_
      openKeys := h.openKeys_eq
      counters := fun c hc hsplit hjoint => h.counters_eq hc hsplit hjoint
      reports := ?_ }
  · rw [queue_drain]
    rfl
  · rw [queue_drain]
    rfl
  · rw [h.writer_joint]
    exact fun k b hk => h.logAt_eq hk b
  · have hperiod : 0 ≤ u.writer.settings.cleanupPeriod := by
      rw [h.writer_joint]
      exact h.period
    rw [← drain_refused_iff_of_period h.enabled_joint h.whole hperiod]
    constructor
    · rintro ⟨_, _, r, _, _, hr, _⟩ ⟨e, he⟩
      rw [hr] at he
      cases he
    · intro hnone
      cases hr : (u.drain now₂).2 with
      | error e => exact absurd ⟨e, hr⟩ hnone
      | ok r =>
        obtain ⟨r₁, r₂, hfirst, hsecond, hsums⟩ := h.reports_joint hr
        exact ⟨r₁, r₂, r, hfirst, hsecond, rfl, hsums⟩

/-- Some events are offered and drained, and then more; or all are offered and drained at once. -/
theorem splitDrain_offerAll {t : Ingestion} {first later : List Event} {now₁ now₂ : Int}
    (hon : t.writer.enabled = true) (hsettled : t.Settled) (hfaults : t.log.faults = .none)
    (hperiod : 0 ≤ t.writer.settings.cleanupPeriod) (hclock : now₁ ≤ now₂)
    (hwindow : t.writer.interval.key now₁ = t.writer.interval.key now₂)
    (hroom : t.queue.events.length + first.length + later.length ≤ t.queue.capacity)
    (hwhole : ¬(t.perform (offerAll (first ++ later))).BreaksOff now₂) :
    SplitDrain (t.perform (offerAll first))
      (((t.perform (offerAll first)).drain now₁).1.perform (offerAll later))
      (t.perform (offerAll (first ++ later))) now₁ now₂ := by
  obtain ⟨queue₁, hearly, hqueue₁⟩ := perform_offerAll (s := t) first (by omega)
  obtain ⟨queue, hjoint, hqueue⟩ := perform_offerAll (s := t) (first ++ later) (by
    rw [List.length_append]
    omega)
  -- The first drain leaves the queue empty, so that it has room for the later events.
  have hcapacity : queue₁.capacity = t.queue.capacity := by
    have hoffered := t.capacity_perform (offerAll first)
    rw [hearly] at hoffered
    exact hoffered
  rw [hjoint] at hwhole
  rw [hearly, hjoint]
  let half := (Ingestion.drain { t with queue := queue₁ } now₁).1
  have hdrained : half.queue = queue₁.drain.2 := queue_drain { t with queue := queue₁ } now₁
  obtain ⟨queue₂, hlate, hqueue₂⟩ := perform_offerAll (s := half) later (by
    rw [hdrained]
    change 0 + later.length ≤ queue₁.capacity
    omega)
  rw [hdrained, EventQueue.drain_empty, List.nil_append] at hqueue₂
  rw [hlate]
  exact
    { enabled := hon
      settled := hsettled
      faultless := hfaults
      period := hperiod
      clock := hclock
      window := hwindow
      log_later := rfl
      writer_later := rfl
      counters_later := rfl
      log_joint := rfl
      writer_joint := rfl
      counters_joint := rfl
      queue_joint := by rw [hqueue, hqueue₁, hqueue₂, List.append_assoc]
      whole := hwhole }

/-- It makes no difference whether events are drained at once or in two drains of one reference
window, if nothing fails, nothing finds the queue full, no drain breaks off and no cleanup is
refused. -/
theorem batching_independent (s : Ingestion) (actions : List Action) (first later : List Event)
    (now₁ now₂ : Int) (hbegins : s.Begins) (hfail : ∀ faults, .fail faults ∉ actions)
    (hon : (s.perform actions).writer.enabled = true)
    (hperiod : 0 ≤ s.writer.settings.cleanupPeriod) (hclock : now₁ ≤ now₂)
    (hwindow : s.writer.interval.key now₁ = s.writer.interval.key now₂)
    (hroom : (s.perform actions).queue.events.length + first.length + later.length ≤
      s.queue.capacity)
    (hwhole : observe aborted s (actions ++ offerAll (first ++ later) ++ [.drain now₂]) = []) :
    DrainAlike (s.perform (actions ++ offerAll first))
      (s.perform (actions ++ offerAll first ++ .drain now₁ :: offerAll later))
      (s.perform (actions ++ offerAll (first ++ later))) now₁ now₂ := by
  rw [observe_concat, observe_append, List.append_eq_nil_iff, List.append_eq_nil_iff] at hwhole
  obtain ⟨hsettled, hfaults⟩ := settled_perform hbegins actions hfail hwhole.1.1
  rw [← s.settings_perform actions] at hperiod
  rw [← s.capacity_perform actions] at hroom
  have hinterval : (s.perform actions).writer.interval = s.writer.interval :=
    congrArg WriterSettings.interval (s.settings_perform actions)
  rw [← hinterval] at hwindow
  have hbreaks : ¬((s.perform actions).perform (offerAll (first ++ later))).BreaksOff now₂ := by
    obtain ⟨queue, hoffered, _⟩ := perform_offerAll (s := s.perform actions) (first ++ later) (by
      rw [List.length_append]
      omega)
    have haborts := aborted_eq_nil_iff.mp hwhole.2
    rw [perform_append, hoffered] at haborts
    rw [hoffered]
    exact fun hbreaks => haborts ⟨hon, hbreaks⟩
  have hsplit := splitDrain_offerAll hon hsettled hfaults hperiod hclock hwindow hroom hbreaks
  rw [perform_append, perform_append, perform_append, perform_append]
  exact hsplit.drainAlike

/-- One event that is drained first, and two of the same window and one that is stale. -/
theorem four_events_in_two_batches :
    tenMillis.Begins ∧ (∀ faults, .fail faults ∉ firstWindow) ∧
      (tenMillis.perform firstWindow).writer.enabled = true ∧
      0 ≤ tenMillis.writer.settings.cleanupPeriod ∧ (25 : Int) ≤ 28 ∧
      tenMillis.writer.interval.key 25 = tenMillis.writer.interval.key 28 ∧
      (tenMillis.perform firstWindow).queue.events.length + [startAt 16].length +
        [startAt 17, startAt 99, startAt 22].length ≤ tenMillis.queue.capacity ∧
      observe aborted tenMillis (firstWindow ++ offerAll
        ([startAt 16] ++ [startAt 17, startAt 99, startAt 22]) ++ [.drain 28]) = [] ∧
      ((tenMillis.perform (firstWindow ++ offerAll
        [startAt 16, startAt 17, startAt 99, startAt 22])).drain 28).1.log.logAt 10 false =
        some (.file (EventLog.linesOf [startAt 16, startAt 17])) ∧
      DrainAlike (tenMillis.perform (firstWindow ++ offerAll [startAt 16]))
        (tenMillis.perform (firstWindow ++ offerAll [startAt 16] ++
          .drain 25 :: offerAll [startAt 17, startAt 99, startAt 22]))
        (tenMillis.perform (firstWindow ++ offerAll
          ([startAt 16] ++ [startAt 17, startAt 99, startAt 22]))) 25 28 := by
  have hbegins : tenMillis.Begins := ⟨rfl, rfl, rfl, rfl⟩
  have hfail : ∀ faults, .fail faults ∉ firstWindow := by
    intro faults
    simp [firstWindow]
  have hon : (tenMillis.perform firstWindow).writer.enabled = true := by decide +kernel
  have hwindow : tenMillis.writer.interval.key 25 = tenMillis.writer.interval.key 28 := by decide
  have hroom : (tenMillis.perform firstWindow).queue.events.length + [startAt 16].length +
      [startAt 17, startAt 99, startAt 22].length ≤ tenMillis.queue.capacity := by decide +kernel
  have hwhole : observe aborted tenMillis (firstWindow ++ offerAll
      ([startAt 16] ++ [startAt 17, startAt 99, startAt 22]) ++ [.drain 28]) = [] :=
    aborted_of_writable rfl (by decide +kernel)
  refine ⟨hbegins, hfail, hon, by decide, by decide, hwindow, hroom, hwhole, by decide +kernel, ?_⟩
  exact batching_independent tenMillis firstWindow [startAt 16]
    [startAt 17, startAt 99, startAt 22] 25 28 hbegins hfail hon (by decide) (by decide) hwindow
    hroom hwhole

/-- An event with a torn text is lost alone if it is drained alone, and with the events that are
drained with it otherwise. -/
theorem torn_event_takes_others_along :
    ¬∀ (s : Ingestion) (actions : List Action) (first later : List Event) (now₁ now₂ : Int),
      s.Begins → (∀ faults, .fail faults ∉ actions) →
      (times (actions ++ [.drain now₁, .drain now₂])).Pairwise (· ≤ ·) →
      (s.perform actions).writer.enabled = true → 0 ≤ s.writer.settings.cleanupPeriod →
      s.writer.interval.key now₁ = s.writer.interval.key now₂ →
      (s.perform actions).queue.events.length + first.length + later.length ≤
        s.queue.capacity →
      ∀ k b, s.writer.retentionHorizon now₂ ≤ k →
        ((s.perform (actions ++ offerAll first ++ .drain now₁ :: offerAll later)).drain
          now₂).1.log.logAt k b =
        ((s.perform (actions ++ offerAll (first ++ later))).drain now₂).1.log.logAt k b := by
  intro h
  have hsame := h tenMillis [] [tornAt 5] [startAt 6] 15 15 ⟨rfl, rfl, rfl, rfl⟩
    (fun _ => List.not_mem_nil) (by decide) rfl (by decide) rfl (by decide) 0 false (by decide)
  revert hsame
  decide +kernel

end Ingestion

end RequestWindows
