import Mathlib.Data.List.Chain
import RequestWindows.Proofs.Writer.OpenLogs

/-! What the reference window is for: it is the last window that is complete, so that while drains
keep up, no event is stale and a window is sealed only after all of its events are in its log. -/
namespace RequestWindows

namespace Interval

variable {i : Interval}

/-- Less than two windows later, at most the next window has begun. -/
theorem key_le_key_add {t u : Int} (h : u ≤ t + i.millis) : i.key u ≤ i.key t + i.millis := by
  have hstart := i.key_le u
  have hstop := i.lt_key_add t
  have hnext : i.Aligned (i.key t + i.millis) := by
    unfold Aligned
    rw [Int.add_emod_right]
    exact i.aligned_key t
  apply Int.not_lt.mp
  intro hlt
  have hstep := add_le_of_lt hnext (i.aligned_key u) hlt
  omega

end Interval

/-- An event that was emitted at most a window ago belongs to one of the two windows that a drain
writes to. -/
theorem Event.window_of_recent {e : Event} {w : Writer} {now : Int} (hpast : e.emittedAt ≤ now)
    (hrecent : now ≤ e.emittedAt + w.interval.millis) :
    e.window w.interval = w.reference now ∨
      e.window w.interval = w.reference now + w.interval.millis := by
  have hupper : w.interval.key e.emittedAt ≤ w.interval.key now := w.interval.key_mono hpast
  have hlower := Interval.key_le_key_add hrecent
  unfold Event.window Writer.reference
  rcases Int.lt_or_eq_of_le hupper with hlt | heq
  · have hstep := Interval.add_le_of_lt (w.interval.aligned_key _) (w.interval.aligned_key _) hlt
    omega
  · omega

namespace Ingestion

/-- The events that are offered to the queue, in order. -/
def offered (actions : List Action) : List Event :=
  actions.filterMap fun
    | .put o => o.event?
    | _ => none

/-- What the clock says at an action, where an event is offered at the time at which it is
emitted. -/
def reading? : Action → Option Int
  | .put o => o.event?.map fun e => (e.emittedAt : Int)
  | .drain now | .cleanup now => some now
  | .enable _ | .fail _ => none

def readings (actions : List Action) : List Int := actions.filterMap reading?

/-- A writer that is enabled and has done nothing yet. -/
structure Untouched (s : Ingestion) : Prop extends Begins s where
  queue : s.queue.events = []
  horizon : s.writer.horizon = none
  enabled : s.writer.enabled = true

/-- What is done in a run that drains in time: the clock does not go back, the first drain comes at
most a window after the first event, and each further one at most a window after the one before. -/
structure Timely (i : Interval) (actions : List Action) : Prop where
  enabled : .enable false ∉ actions
  faultless : ∀ faults, .fail faults ∉ actions
  clock : (readings actions).Pairwise (· ≤ ·)
  bounded : ∀ t ∈ readings actions, t < Nat.pow 2 63
  first : ∀ now e, (drainTimes actions).head? = some now → (offered actions).head? = some e →
    now ≤ e.emittedAt + i.millis
  gaps : (drainTimes actions).IsChain fun t t' => t' ≤ t + i.millis

section Clock

variable {i : Interval} {actions earlier later : List Action} {a : Action}

theorem filterMap_sublist_filterMap {α β : Type} {f g : α → Option β}
    (h : ∀ a b, f a = some b → g a = some b) (l : List α) :
    (l.filterMap f).Sublist (l.filterMap g) := by
  induction l with
  | nil => exact List.Sublist.refl _
  | cons a rest ih =>
    cases hf : f a with
    | none =>
      rw [List.filterMap_cons_none hf]
      apply ih.trans
      cases hg : g a with
      | none => rw [List.filterMap_cons_none hg]
      | some b =>
        rw [List.filterMap_cons_some hg]
        exact List.sublist_cons_self b _
    | some b =>
      rw [List.filterMap_cons_some hf, List.filterMap_cons_some (h a b hf)]
      exact ih.cons_cons b

theorem times_sublist (actions : List Action) : (times actions).Sublist (readings actions) := by
  apply filterMap_sublist_filterMap
  intro a t h
  cases a <;> cases h <;> rfl

theorem drainTimes_sublist (actions : List Action) :
    (drainTimes actions).Sublist (readings actions) := by
  apply filterMap_sublist_filterMap
  intro a t h
  cases a <;> cases h
  rfl

theorem emitted_sublist (actions : List Action) :
    ((offered actions).map fun e => (e.emittedAt : Int)).Sublist (readings actions) := by
  unfold offered
  rw [List.map_filterMap]
  apply filterMap_sublist_filterMap
  intro a t h
  cases a with
  | put o => exact h
  | _ => cases h

theorem readings_append : readings (earlier ++ later) = readings earlier ++ readings later :=
  List.filterMap_append

theorem offered_append : offered (earlier ++ later) = offered earlier ++ offered later :=
  List.filterMap_append

theorem drainTimes_append :
    drainTimes (earlier ++ later) = drainTimes earlier ++ drainTimes later := List.filterMap_append

theorem Timely.of_append (h : Timely i (earlier ++ later)) : Timely i earlier := by
  have hclock := h.clock
  have hbounded := h.bounded
  have hfirst := h.first
  have hgaps := h.gaps
  rw [readings_append] at hclock hbounded
  rw [drainTimes_append] at hfirst hgaps
  rw [offered_append] at hfirst
  refine ⟨fun hmem => h.enabled (List.mem_append_left _ hmem),
    fun faults hmem => h.faultless faults (List.mem_append_left _ hmem),
    (List.pairwise_append.mp hclock).1, fun t ht => hbounded t (List.mem_append_left _ ht), ?_,
    hgaps.left_of_append⟩
  intro now e hnow he
  apply hfirst now e
  · rw [List.head?_append, hnow]
    rfl
  · rw [List.head?_append, he]
    rfl

/-- At any point of a timely run the clock has said nothing later than what it says from then on. -/
theorem Timely.le_of_append (h : Timely i (earlier ++ later)) {t t' : Int}
    (ht : t ∈ readings earlier) (ht' : t' ∈ readings later) : t ≤ t' := by
  have hclock := h.clock
  rw [readings_append] at hclock
  exact (List.pairwise_append.mp hclock).2.2 t ht t' ht'

theorem emitted_mem {e : Event} (he : e ∈ offered actions) :
    (e.emittedAt : Int) ∈ readings actions :=
  (emitted_sublist actions).subset (List.mem_map_of_mem he)

/-- The first event of a timely run is the oldest. -/
theorem Timely.head_le (h : Timely i actions) {first e : Event}
    (hfirst : (offered actions).head? = some first) (he : e ∈ offered actions) :
    first.emittedAt ≤ e.emittedAt := by
  have horder := h.clock.sublist (emitted_sublist actions)
  cases hl : offered actions with
  | nil =>
    rw [hl] at he
    cases he
  | cons e₀ rest =>
    rw [hl] at hfirst he horder
    cases hfirst
    rcases List.mem_cons.mp he with rfl | he
    · exact Nat.le_refl _
    · rw [List.map_cons] at horder
      exact Int.ofNat_le.mp (List.rel_of_pairwise_cons horder (List.mem_map_of_mem he))

end Clock

section Queue

variable {s : Ingestion} {actions : List Action} {a : Action} {e : Event}

theorem mem_offered_of_mem_taken (he : e ∈ s.taken a) : e ∈ offered [a] := by
  cases a with
  | put o =>
    change e ∈ if (s.put o).2 = true then o.event?.toList else [] at he
    split at he
    · cases ho : o.event? with
      | none =>
        rw [ho] at he
        cases he
      | some e' =>
        rw [ho, Option.toList_some, List.mem_singleton] at he
        rw [he]
        exact List.mem_filterMap.mpr ⟨.put o, .head _, ho⟩
    · cases he
  | _ => cases he

theorem accepted_concat (s : Ingestion) (actions : List Action) (a : Action) :
    s.accepted (actions ++ [a]) = s.accepted actions ++ (s.perform actions).taken a :=
  observe_concat taken s actions a

theorem mem_offered_of_mem_accepted (he : e ∈ s.accepted actions) : e ∈ offered actions := by
  induction actions using List.reverseRecOn with
  | nil => cases he
  | append_singleton earlier a ih =>
    rw [accepted_concat] at he
    rw [offered_append]
    rcases List.mem_append.mp he with he | he
    · exact List.mem_append_left _ (ih he)
    · exact List.mem_append_right _ (mem_offered_of_mem_taken he)

end Queue

section Cleanup

variable {s : Ingestion} {group : Int → List Event}

theorem enabled_cleanup (s : Ingestion) (now : Int) :
    (s.cleanup now).1.writer.enabled = s.writer.enabled := by
  cases h : s.cleanup now with
  | mk t outcome =>
    have hcase := s.cleanup_cleanup now
    rw [h] at hcase
    cases hcase <;> rfl

/-- A cleanup takes the events of some windows away, all of them old enough. -/
theorem upToDate_cleanup (h : s.UpToDate group) (now : Int) :
    ∃ gone : List Int,
      (s.cleanup now).1.UpToDate (fun k => if k ∈ gone then [] else group k) ∧
      ∀ k ∈ gone, k + s.writer.interval.millis + s.writer.settings.retention ≤ now := by
  have hnone : (fun k => if k ∈ ([] : List Int) then [] else group k) = group := by
    funext k
    exact if_neg List.not_mem_nil
  have hunchanged : ∃ gone : List Int, s.UpToDate (fun k => if k ∈ gone then [] else group k) ∧
      ∀ k ∈ gone, k + s.writer.interval.millis + s.writer.settings.retention ≤ now := by
    refine ⟨[], ?_, fun k hk => nomatch hk⟩
    rw [hnone]
    exact h
  have hcase := s.cleanup_cleanup now
  cases hc : s.cleanup now with
  | mk t outcome =>
    rw [hc] at hcase
    cases hcase with
    | unstarted _ => exact hunchanged
    | early _ _ => exact hunchanged
    | refused _ _ _ => exact hunchanged
    -- A window that could not be deleted has no events, so that it does not count as open either.
    | @due last _ _ _ =>
      let keys := s.writer.interval.keysBetween (s.writer.interval.key last)
        (s.writer.retentionHorizon now)
      obtain ⟨hfaithful, hfailed⟩ := h.written.log.delete keys
      refine ⟨keys, ⟨⟨hfaithful, ?_⟩, ?_⟩, fun k hk => s.le_of_mem_keysBetween hk⟩
      · intro k
        change k ∈ s.writer.openKeys.filter (fun k => k ∉ keys ∨ k ∈ (s.log.delete keys).2.2) ↔
          _ ∧ closed s.writer.lastReference k = false
        rw [KeySet.mem_filter, h.written.openKeys, decide_eq_true_eq]
        by_cases hk : k ∈ keys
        · rw [if_pos hk]
          constructor
          · rintro ⟨⟨hgroup, _⟩, hnot | hmem⟩
            · exact absurd hk hnot
            · exact absurd (hfailed k hmem) hgroup
          · intro hempty
            exact absurd rfl hempty.1
        · rw [if_neg hk]
          exact ⟨fun h => h.1, fun h => ⟨h, Or.inl hk⟩⟩
      · intro hlast k
        have hempty : group k = [] := h.unstarted hlast k
        rw [hempty, ite_self]

end Cleanup

/-- Whether every group holds all events of its window that have been kept in a run, or none where
the window has become old enough to be deleted. -/
def Accounts (s : Ingestion) (actions : List Action) (group : Int → List Event) : Prop :=
  ∀ k, group k = Event.ofWindow s.writer.interval (observe kept s actions) k ∨
    group k = [] ∧ ∃ t ∈ times actions,
      k + s.writer.interval.millis + s.writer.settings.retention ≤ t

/-- How a timely run stands. The logs hold, in full, all windows that are not deleted yet; nothing
that was drained was stale; and what is queued was emitted after the last drain. -/
structure Punctual (s : Ingestion) (actions : List Action) : Prop where
  enabled : (s.perform actions).writer.enabled = true
  logs : ∃ group, (s.perform actions).UpToDate group ∧ s.Accounts actions group
  lastReference : (s.perform actions).writer.lastReference =
    (drainTimes actions).getLast?.map s.writer.reference
  complete : s.accepted actions =
    observe kept s actions ++ (s.perform actions).queue.events
  waiting : ∀ e ∈ (s.perform actions).queue.events, ∀ t ∈ drainTimes actions, t ≤ e.emittedAt

section Runs

variable {s : Ingestion} {actions earlier : List Action} {a : Action} {now : Int}

theorem Punctual.mem_offered (h : s.Punctual earlier) {e : Event}
    (he : e ∈ (s.perform earlier).queue.events) : e ∈ offered earlier := by
  apply mem_offered_of_mem_accepted (s := s)
  rw [h.complete]
  exact List.mem_append_right _ he

/-- What a drain of a timely run finds in the queue was emitted at most a window ago. -/
theorem Punctual.recent (h : s.Punctual earlier)
    (htimely : Timely s.writer.interval (earlier ++ [.drain now])) {e : Event}
    (he : e ∈ (s.perform earlier).queue.events) :
    e.emittedAt ≤ now ∧ now ≤ e.emittedAt + (s.perform earlier).writer.interval.millis := by
  have hoffered := h.mem_offered he
  have hinterval : (s.perform earlier).writer.interval = s.writer.interval :=
    congrArg WriterSettings.interval (s.settings_perform earlier)
  have hgaps := htimely.gaps
  rw [drainTimes_append] at hgaps
  rw [hinterval]
  refine ⟨htimely.le_of_append (emitted_mem hoffered) (.head _), ?_⟩
  cases hlast : (drainTimes earlier).getLast? with
  | none =>
    -- The first drain comes at most a window after the first event, which is not after this one.
    have hnone : drainTimes earlier = [] := List.getLast?_eq_none_iff.mp hlast
    cases hhead : (offered earlier).head? with
    | none =>
      rw [List.head?_eq_none_iff.mp hhead] at hoffered
      cases hoffered
    | some first =>
      have hfirst := htimely.first now first (by
        rw [drainTimes_append, hnone]
        rfl) (by
        rw [offered_append, List.head?_append, hhead]
        rfl)
      have hle := htimely.of_append.head_le hhead hoffered
      omega
  | some t =>
    have hgap : now ≤ t + s.writer.interval.millis :=
      (List.isChain_append.mp hgaps).2.2 t hlast now rfl
    have hafter := h.waiting e he t (List.mem_of_getLast? hlast)
    omega

theorem kept_of_recent (hon : s.writer.enabled = true)
    (h : ∀ e ∈ s.queue.events,
      e.emittedAt ≤ now ∧ now ≤ e.emittedAt + s.writer.interval.millis) :
    s.kept (.drain now) = s.queue.events := by
  rw [kept, if_pos hon, List.filter_eq_self]
  intro e he
  obtain ⟨hpast, hrecent⟩ := h e he
  exact decide_eq_true (Event.window_of_recent hpast hrecent)

theorem stale_of_recent (hon : s.writer.enabled = true)
    (h : ∀ e ∈ s.queue.events,
      e.emittedAt ≤ now ∧ now ≤ e.emittedAt + s.writer.interval.millis) {r : DrainReport}
    (hr : (s.drain now).2 = .ok r) : r.stale = 0 := by
  refine (congrArg DrainReport.stale (report_of_enabled now hon hr).2.1).trans ?_
  unfold report
  rw [List.length_eq_zero_iff, List.filter_eq_nil_iff]
  intro e he hnot
  obtain ⟨hcurrent, hnext⟩ := of_decide_eq_true hnot
  obtain ⟨hpast, hrecent⟩ := h e he
  exact (Event.window_of_recent hpast hrecent).elim hcurrent hnext

/-- A window that is old enough to be deleted gets no more events. -/
theorem ofWindow_kept_of_old {k t : Int} (hle : t ≤ now)
    (hold : k + s.writer.interval.millis + s.writer.settings.retention ≤ t) :
    Event.ofWindow s.writer.interval (s.kept (.drain now)) k = [] := by
  have hpos := s.writer.interval.pos
  have hbefore : k < s.writer.reference now := by
    apply Int.lt_of_not_ge
    intro hge
    have hyoung := lt_of_reference_le (w := s.writer) hge
    omega
  exact ofWindow_kept_eq_nil (by omega) (by omega)

section Accounts

variable {group : Int → List Event}

theorem times_before (earlier : List Action) (a : Action) {t : Int} (ht : t ∈ times earlier) :
    t ∈ times (earlier ++ [a]) := by
  rw [times_concat]
  exact List.mem_append_left _ ht

/-- An action that keeps no event leaves all groups accounted for. -/
theorem Accounts.idle (h : s.Accounts earlier group)
    (hsame : observe kept s (earlier ++ [a]) = observe kept s earlier) :
    s.Accounts (earlier ++ [a]) group := by
  intro k
  rw [hsame]
  rcases h k with hfull | ⟨hnone, t, ht, hold⟩
  · exact Or.inl hfull
  · exact Or.inr ⟨hnone, t, times_before earlier a ht, hold⟩

/-- What a drain keeps is added to the groups of windows that are too young to be deleted. -/
theorem Accounts.drain (h : s.Accounts earlier group)
    (htimely : Timely s.writer.interval (earlier ++ [.drain now])) :
    s.Accounts (earlier ++ [.drain now]) fun k => group k ++
      Event.ofWindow (s.perform earlier).writer.interval
        ((s.perform earlier).kept (.drain now)) k := by
  have hinterval : (s.perform earlier).writer.interval = s.writer.interval :=
    congrArg WriterSettings.interval (s.settings_perform earlier)
  intro k
  rw [observe_concat]
  dsimp only
  rcases h k with hfull | ⟨hnone, t, ht, hold⟩
  · left
    rw [hfull, hinterval]
    exact (List.filter_append _ _).symm
  · right
    have hle : t ≤ now := htimely.le_of_append ((times_sublist earlier).subset ht) (.head _)
    rw [← hinterval, ← settings_perform s earlier] at hold
    rw [hnone, ofWindow_kept_of_old hle hold]
    rw [hinterval, settings_perform] at hold
    exact ⟨rfl, t, times_before earlier _ ht, hold⟩

/-- Windows that are old enough may lose their events. -/
theorem Accounts.without (h : s.Accounts actions group) {gone : List Int}
    (hnow : now ∈ times actions)
    (hgone : ∀ k ∈ gone, k + s.writer.interval.millis + s.writer.settings.retention ≤ now) :
    s.Accounts actions fun k => if k ∈ gone then [] else group k := by
  intro k
  dsimp only
  by_cases hk : k ∈ gone
  · right
    rw [if_pos hk]
    exact ⟨rfl, now, hnow, hgone k hk⟩
  · rw [if_neg hk]
    exact h k

/-- A cleanup of a run leaves every window accounted for. -/
theorem Accounts.cleanup {t : Ingestion} (h : s.Accounts actions group) (hdate : t.UpToDate group)
    (hsettings : t.writer.settings = s.writer.settings) (hnow : now ∈ times actions) :
    ∃ group, (t.cleanup now).1.UpToDate group ∧ s.Accounts actions group := by
  obtain ⟨gone, hcleaned, hgone⟩ := upToDate_cleanup hdate now
  refine ⟨_, hcleaned, h.without hnow ?_⟩
  unfold Writer.interval at hgone
  rw [hsettings] at hgone
  exact hgone

end Accounts

/-- A drain of a timely run does not break off if all offered events can be written. -/
theorem Punctual.whole (h : s.Punctual earlier)
    (hwritable : ∀ e ∈ offered earlier, e.isWritable s.log.strictNames = true) :
    ¬(s.perform earlier).BreaksOff now := by
  apply not_breaksOff_of_writable
  intro e he
  rw [strictNames_perform]
  exact hwritable e (h.mem_offered he)

/-- A drain of a timely run writes what it keeps to the logs. -/
theorem Punctual.routed (h : s.Punctual earlier)
    (htimely : Timely s.writer.interval (earlier ++ [.drain now]))
    (hwhole : ¬(s.perform earlier).BreaksOff now) :
    ∃ group, ((s.perform earlier).routed now).UpToDate group ∧
      s.Accounts (earlier ++ [.drain now]) group := by
  obtain ⟨group, hdate, haccounts⟩ := h.logs
  have hmono : ∀ r, (s.perform earlier).writer.lastReference = some r →
      r ≤ (s.perform earlier).writer.reference now := by
    intro r hr
    rw [h.lastReference] at hr
    obtain ⟨t, ht, rfl⟩ := Option.map_eq_some_iff.mp hr
    have hpast : t ≤ now :=
      htimely.le_of_append ((drainTimes_sublist earlier).subset (List.mem_of_getLast? ht)) (.head _)
    rw [reference_perform]
    exact reference_mono s.writer hpast
  have hbounded : ∀ e ∈ (s.perform earlier).kept (.drain now), e.emittedAt < Nat.pow 2 63 := by
    rw [kept_of_recent h.enabled fun e he => h.recent htimely he]
    intro e he
    exact Int.ofNat_lt.mp (htimely.of_append.bounded _ (emitted_mem (h.mem_offered he)))
  have hlast : ((s.perform earlier).routed now).writer.lastReference =
      some ((s.perform earlier).writer.reference now) := by
    rw [lastReference_routed, if_neg hwhole]
  refine ⟨_, ⟨?_, ?_⟩, haccounts.drain htimely⟩
  · rw [hlast]
    exact written_routed hdate.written h.enabled hwhole hdate.unstarted hmono hbounded
  · intro hnone
    rw [hlast] at hnone
    cases hnone

/-- A drain of a timely run keeps all that it drains, and deletes only windows that are complete. -/
theorem Punctual.drain (h : s.Punctual earlier)
    (htimely : Timely s.writer.interval (earlier ++ [.drain now]))
    (hwhole : ¬(s.perform earlier).BreaksOff now) : s.Punctual (earlier ++ [.drain now]) := by
  have hon := h.enabled
  have hkept := kept_of_recent hon fun e he => h.recent htimely he
  have hafter : s.perform (earlier ++ [.drain now]) = ((s.perform earlier).drain now).1 :=
    perform_concat s earlier (.drain now)
  have hempty : ((s.perform earlier).drain now).1.queue.events = [] :=
    congrArg EventQueue.events ((s.perform earlier).queue_drain now)
  obtain ⟨group, hrouted, haccounts⟩ := h.routed htimely hwhole
  have hsettings : ((s.perform earlier).routed now).writer.settings = s.writer.settings := by
    rw [settings_routed, settings_perform]
  have hnow : now ∈ times (earlier ++ [.drain now]) := by
    rw [times_concat]
    exact List.mem_append_right _ (.head _)
  refine ⟨?_, ?_, ?_, ?_, ?_⟩
  · rw [hafter, drain_of_enabled now hon hwhole, enabled_cleanup,
      (s.perform earlier).onlyLogs_routed now |>.2.2.2.2.1]
    exact hon
  · rw [hafter, drain_of_enabled now hon hwhole]
    exact haccounts.cleanup hrouted hsettings hnow
  · have hlast : ((s.perform earlier).drain now).1.writer.lastReference =
        some ((s.perform earlier).writer.reference now) := by
      rw [drain_of_enabled now hon hwhole, lastReference_cleanup, lastReference_routed,
        if_neg hwhole]
    rw [hafter, hlast, reference_perform, drainTimes_append, List.getLast?_append]
    rfl
  · rw [accepted_concat, observe_concat, hafter, hempty, hkept, h.complete]
    rfl
  · intro e he
    rw [hafter, hempty] at he
    cases he

/-- An action of a timely run that is not a drain changes no log but by a cleanup. -/
theorem Punctual.idle (h : s.Punctual earlier)
    (htimely : Timely s.writer.interval (earlier ++ [a])) (ha : ∀ now, a ≠ .drain now)
    (hsame : observe kept s (earlier ++ [a]) = observe kept s earlier) :
    ((s.perform earlier).act a).writer.enabled = true ∧
      ((s.perform earlier).act a).writer.lastReference =
        (s.perform earlier).writer.lastReference ∧
      ∃ group, ((s.perform earlier).act a).UpToDate group ∧
        s.Accounts (earlier ++ [a]) group := by
  obtain ⟨group, hdate, haccounts⟩ := h.logs
  have hstill := haccounts.idle hsame
  cases a with
  | put o =>
    exact ⟨h.enabled, rfl, group,
      ⟨⟨hdate.written.log, hdate.written.openKeys⟩, hdate.unstarted⟩, hstill⟩
  | enable on =>
    cases on with
    | true =>
      exact ⟨rfl, rfl, group,
        ⟨⟨hdate.written.log, hdate.written.openKeys⟩, hdate.unstarted⟩, hstill⟩
    | false => exact absurd (List.mem_append_right _ (.head _)) htimely.enabled
  | fail faults => exact absurd (List.mem_append_right _ (.head _)) (htimely.faultless faults)
  | drain now => exact absurd rfl (ha now)
  | cleanup now =>
    have hnow : now ∈ times (earlier ++ [.cleanup now]) := by
      rw [times_concat]
      exact List.mem_append_right _ (.head _)
    exact ⟨(enabled_cleanup _ now).trans h.enabled, lastReference_cleanup now,
      hstill.cleanup hdate (s.settings_perform earlier) hnow⟩

/-- What holds of a run holds after any action but a drain, too, if the action is timely. -/
theorem Punctual.other (h : s.Punctual earlier)
    (htimely : Timely s.writer.interval (earlier ++ [a])) (ha : ∀ now, a ≠ .drain now) :
    s.Punctual (earlier ++ [a]) := by
  have hsame : observe kept s (earlier ++ [a]) = observe kept s earlier := by
    rw [observe_concat]
    cases a with
    | drain now => exact absurd rfl (ha now)
    | _ => exact List.append_nil _
  have hdrains : drainTimes (earlier ++ [a]) = drainTimes earlier := by
    rw [drainTimes_append]
    cases a with
    | drain now => exact absurd rfl (ha now)
    | _ => exact List.append_nil _
  have hafter : s.perform (earlier ++ [a]) = (s.perform earlier).act a := perform_concat s earlier a
  have hqueue : (s.perform (earlier ++ [a])).queue.events =
      (s.perform earlier).queue.events ++ (s.perform earlier).taken a := by
    rw [hafter, queue_act]
    cases a with
    | drain now => exact absurd rfl (ha now)
    | _ => rfl
  obtain ⟨hon, hlast, hlogs⟩ := h.idle htimely ha hsame
  rw [← hafter] at hon hlast hlogs
  refine ⟨hon, hlogs, ?_, ?_, ?_⟩
  · rw [hlast, hdrains]
    exact h.lastReference
  · rw [accepted_concat, hsame, hqueue, h.complete, List.append_assoc]
  · intro e he t ht
    rw [hdrains] at ht
    rw [hqueue] at he
    rcases List.mem_append.mp he with he | he
    · exact h.waiting e he t ht
    · exact htimely.le_of_append ((drainTimes_sublist earlier).subset ht)
        (emitted_mem (mem_offered_of_mem_taken he))

theorem writable_of_append {earlier later : List Action}
    (h : ∀ e ∈ offered (earlier ++ later), e.isWritable s.log.strictNames = true) :
    ∀ e ∈ offered earlier, e.isWritable s.log.strictNames = true := by
  intro e he
  rw [offered_append] at h
  exact h e (List.mem_append_left _ he)

theorem punctual_perform (hs : s.Untouched) (htimely : Timely s.writer.interval actions)
    (hwritable : ∀ e ∈ offered actions, e.isWritable s.log.strictNames = true) :
    s.Punctual actions := by
  induction actions using List.reverseRecOn with
  | nil =>
    refine ⟨hs.enabled, ⟨_, upToDate_of_begins hs.toBegins, fun k => Or.inl rfl⟩,
      hs.lastReference, hs.queue.symm, ?_⟩
    intro e _ t ht
    cases ht
  | append_singleton earlier a ih =>
    have hearlier := writable_of_append hwritable
    have hpunctual := ih htimely.of_append hearlier
    by_cases hdrain : ∃ now, a = .drain now
    · obtain ⟨now, rfl⟩ := hdrain
      exact hpunctual.drain htimely (hpunctual.whole hearlier)
    · exact hpunctual.other htimely fun now heq => hdrain ⟨now, heq⟩

/-- What is emitted after a drain does not belong to a window that the drain has closed. -/
theorem window_ne_of_closed {k t : Int} {e : Event} (hk : k < s.writer.reference t)
    (he : t ≤ e.emittedAt) : e.window s.writer.interval ≠ k := by
  have hmono : s.writer.interval.key t ≤ e.window s.writer.interval := s.writer.interval.key_mono he
  have hpos := s.writer.interval.pos
  unfold Writer.reference at hk
  omega

/-- A sealed log of a timely run is complete, and it stays so. -/
theorem Punctual.sealed_complete {later : List Action} {k : Int} (h : s.Punctual earlier)
    (htimely : Timely s.writer.interval (earlier ++ later))
    (hk : (s.perform earlier).log.logAt k true ≠ none) :
    let events := Event.ofWindow s.writer.interval (s.accepted earlier) k
    (s.perform earlier).log.logAt k true = some (.file (EventLog.linesOf events)) ∧
      (s.perform earlier).log.read k = .ok (EventLog.transcribe (EventLog.linesOf events)) ∧
      ∀ e ∈ offered later, e.window s.writer.interval ≠ k := by
  obtain ⟨group, hdate, hgroup⟩ := h.logs
  obtain ⟨hthere, hclosed⟩ := hdate.written.log.logAt_sealed_iff.mp hk
  have hfull := (hgroup k).resolve_right fun hgone => hthere hgone.1
  have hlog := hdate.written.log.logAt_closed hthere
  have hread := hdate.written.log.read_eq hthere hclosed
  rw [hclosed, hfull] at hlog
  rw [hfull] at hread
  -- The drain that closed the window came after all events of it, none of which still waits.
  obtain ⟨t, ht, hlt⟩ : ∃ t ∈ (drainTimes earlier).getLast?, k < s.writer.reference t := by
    rw [h.lastReference] at hclosed
    cases hlast : (drainTimes earlier).getLast? with
    | none =>
      rw [hlast] at hclosed
      cases hclosed
    | some t =>
      rw [hlast] at hclosed
      exact ⟨t, rfl, of_decide_eq_true hclosed⟩
  have hdrained : t ∈ drainTimes earlier := List.mem_of_getLast? ht
  have hqueued : Event.ofWindow s.writer.interval (s.perform earlier).queue.events k = [] := by
    rw [Event.ofWindow, List.filter_eq_nil_iff]
    intro e he hwindow
    exact window_ne_of_closed hlt (h.waiting e he t hdrained) (of_decide_eq_true hwindow)
  have hkept : Event.ofWindow s.writer.interval (s.accepted earlier) k =
      Event.ofWindow s.writer.interval (observe kept s earlier) k := by
    rw [h.complete]
    refine (List.filter_append _ _).trans ?_
    change _ ++ Event.ofWindow s.writer.interval (s.perform earlier).queue.events k = _
    rw [hqueued, List.append_nil]
    rfl
  rw [hkept]
  refine ⟨hlog, hread, ?_⟩
  intro e he
  exact window_ne_of_closed hlt
    (htimely.le_of_append ((drainTimes_sublist earlier).subset hdrained) (emitted_mem he))

end Runs

section Refusal

variable {s : Ingestion} {last now : Int}

/-- Where no deletion fails, a cleanup that is not refused moves the horizon as far as it should,
unless that is not far enough. -/
theorem horizon_cleanup (hlast : s.writer.horizon = some last)
    (hfailures : s.deleteFailures now = []) :
    (s.cleanup now).1.writer.horizon = some last ∧
        s.writer.retentionHorizon now - last ≤ s.writer.settings.cleanupPeriod ∧
        (∃ deleted, (s.cleanup now).2 = .ok deleted) ∨
      (s.cleanup now).1.writer.horizon = some last ∧ (∃ e, (s.cleanup now).2 = .error e) ∨
      (s.cleanup now).1.writer.horizon = some (s.writer.retentionHorizon now) ∧
        ∃ deleted, (s.cleanup now).2 = .ok deleted := by
  have hcase := s.cleanup_cleanup now
  cases hc : s.cleanup now with
  | mk t outcome =>
    rw [hc] at hcase
    cases hcase with
    | unstarted hnone =>
      rw [hlast] at hnone
      cases hnone
    | @early last' hlast' hmoved =>
      rw [hlast] at hlast'
      cases hlast'
      exact Or.inl ⟨hlast, hmoved, [], rfl⟩
    | @refused last' e hlast' _ _ => exact Or.inr (Or.inl ⟨hlast, e, rfl⟩)
    | @due last' hlast' hmoved hfew =>
      rw [hlast] at hlast'
      cases hlast'
      have hnone : (s.log.delete (s.writer.interval.keysBetween (s.writer.interval.key last)
          (s.writer.retentionHorizon now))).2.2 = [] :=
        (deleteFailures_of_due hlast hmoved hfew).symm.trans hfailures
      refine Or.inr (Or.inr ⟨?_, _, rfl⟩)
      refine (horizon_expire s _ _).trans ?_
      rw [hnone]
      rfl

/-- How far the horizon lies behind after the last drain: no further than the cleanup period. -/
def Swept (s : Ingestion) : Option Int → Prop
  | none => s.writer.horizon = none
  | some t => ∃ h, s.writer.horizon = some h ∧ s.writer.interval.Aligned h ∧
      s.writer.retentionHorizon t - h ≤ max s.writer.settings.cleanupPeriod 0

theorem swept_of_eq {t : Ingestion} {drained : Option Int}
    (hsettings : t.writer.settings = s.writer.settings)
    (hhorizon : t.writer.horizon = s.writer.horizon) (h : s.Swept drained) : t.Swept drained := by
  cases drained with
  | none => exact hhorizon.trans h
  | some time =>
    obtain ⟨last, hlast, haligned, hlag⟩ := h
    refine ⟨last, hhorizon.trans hlast, ?_, ?_⟩
    · unfold Writer.interval
      rw [hsettings]
      exact haligned
    · unfold Writer.retentionHorizon Writer.interval
      rw [hsettings]
      exact hlag

theorem retentionHorizon_mono (w : Writer) {t now : Int} (h : t ≤ now) :
    w.retentionHorizon t ≤ w.retentionHorizon now := w.interval.key_mono (by omega)

theorem swept_cleanup {drained : Option Int} (hpast : ∀ t ∈ drained, t ≤ now)
    (hfailures : s.deleteFailures now = []) (h : s.Swept drained) :
    (s.cleanup now).1.Swept drained := by
  have hsettings := s.settings_cleanup now
  cases drained with
  | none =>
    have hsame : (s.cleanup now).1 = s := by
      unfold cleanup
      rw [show s.writer.horizon = none from h]
    rw [hsame]
    exact h
  | some t =>
    obtain ⟨last, hlast, haligned, hlag⟩ := h
    rcases horizon_cleanup hlast hfailures with ⟨hsame, _⟩ | ⟨hsame, _⟩ | ⟨hmoved, _⟩
    · exact swept_of_eq hsettings (hsame.trans hlast.symm) ⟨last, hlast, haligned, hlag⟩
    · exact swept_of_eq hsettings (hsame.trans hlast.symm) ⟨last, hlast, haligned, hlag⟩
    · have hmono := retentionHorizon_mono s.writer (hpast t rfl)
      refine ⟨_, hmoved, ?_, ?_⟩
      · unfold Writer.interval
        rw [hsettings]
        exact s.writer.interval.aligned_key _
      · have hsame : (s.cleanup now).1.writer.retentionHorizon t = s.writer.retentionHorizon t := by
          unfold Writer.retentionHorizon Writer.interval
          rw [hsettings]
        rw [hsame]
        omega

/-- From one drain to the next the horizon falls behind by at most a window. -/
theorem lag_routed {drained : Option Int}
    (hgap : ∀ t ∈ drained, now ≤ t + s.writer.interval.millis) (h : s.Swept drained) :
    ∃ last, (s.routed now).writer.horizon = some last ∧ s.writer.interval.Aligned last ∧
      s.writer.retentionHorizon now - last ≤
        max s.writer.settings.cleanupPeriod 0 + s.writer.interval.millis := by
  have hpos := s.writer.interval.pos
  have hhorizon := (s.onlyLogs_routed now).2.2.2.2.2.1
  cases drained with
  | none =>
    rw [show s.writer.horizon = none from h, Option.getD_none] at hhorizon
    have hbefore := retentionHorizon_lt_reference s.writer now
    exact ⟨_, hhorizon, aligned_reference s.writer now, by omega⟩
  | some t =>
    obtain ⟨last, hlast, haligned, hlag⟩ := h
    rw [hlast, Option.getD_some] at hhorizon
    have hstep : s.writer.retentionHorizon now ≤
        s.writer.retentionHorizon t + s.writer.interval.millis := by
      have hnow := hgap t rfl
      exact Interval.key_le_key_add (by omega)
    exact ⟨last, hhorizon, haligned, by omega⟩

/-- A cleanup that falls behind by at most a window is refused only if its period is very long. -/
theorem long_period_of_refused {w : Writer} (haligned : w.interval.Aligned last)
    (hlag : w.retentionHorizon now - last ≤ max w.settings.cleanupPeriod 0 + w.interval.millis)
    (hmany : w.listLimit ≤
      w.interval.countBetween (w.interval.key last) (w.retentionHorizon now)) :
    ((w.listLimit : Int) - 1) * w.interval.millis ≤ max w.settings.cleanupPeriod 0 := by
  rw [Interval.key_eq_self haligned] at hmany
  have hspan : (w.listLimit : Int) * w.interval.millis ≤ w.retentionHorizon now - last :=
    Interval.mul_le_of_le_countBetween w.settings.listLimit.positive hmany
  rw [Int.sub_mul, Int.one_mul]
  omega

theorem swept_drain {drained : Option Int} (hon : s.writer.enabled = true)
    (hwhole : ¬s.BreaksOff now)
    (hgap : ∀ t ∈ drained, now ≤ t + s.writer.interval.millis)
    (hfailures : (s.routed now).deleteFailures now = []) (h : s.Swept drained) :
    ((∃ r, (s.drain now).2 = .ok r) ∧ (s.drain now).1.Swept (some now)) ∨
      ((s.writer.listLimit : Int) - 1) * s.writer.interval.millis ≤
        max s.writer.settings.cleanupPeriod 0 := by
  obtain ⟨last, hlast, haligned, hlag⟩ := lag_routed hgap h
  have hsettings : (s.routed now).writer.settings = s.writer.settings := settings_routed now
  have hsettings' : ((s.routed now).cleanup now).1.writer.settings = s.writer.settings :=
    ((s.routed now).settings_cleanup now).trans hsettings
  have hok {deleted : List Int} (hd : ((s.routed now).cleanup now).2 = .ok deleted) :
      ∃ r, (s.drain now).2 = .ok r := by
    rw [drain_of_enabled now hon hwhole, hd]
    exact ⟨_, rfl⟩
  rw [drain_of_enabled now hon hwhole] at hok ⊢
  unfold Swept Writer.retentionHorizon Writer.interval
  rw [hsettings']
  have hcleanup := horizon_cleanup hlast hfailures
  unfold Writer.retentionHorizon Writer.interval at hcleanup
  rw [hsettings] at hcleanup
  rcases hcleanup with ⟨hstays, hmoved, deleted, hd⟩ | ⟨_, hrefused⟩ | ⟨hmoved, deleted, hd⟩
  · exact Or.inl ⟨hok hd, last, hstays, haligned, by omega⟩
  · right
    obtain ⟨last', hlast', _, hmany⟩ := (cleanup_refused_iff _ now).mp hrefused
    rw [hlast] at hlast'
    cases hlast'
    unfold Writer.retentionHorizon Writer.interval Writer.listLimit at hmany
    rw [hsettings] at hmany
    exact long_period_of_refused haligned hlag hmany
  · exact Or.inl ⟨hok hd, _, hmoved, s.writer.interval.aligned_key _, by omega⟩

/-- The next drain of a timely run is not refused, unless the cleanup period is very long. -/
theorem swept_next {earlier : List Action} (h : s.Punctual earlier)
    (htimely : Timely s.writer.interval (earlier ++ [.drain now]))
    (hwhole : ¬(s.perform earlier).BreaksOff now)
    (hfailed : (s.perform earlier).failedDeletions (.drain now) = [])
    (hswept : (s.perform earlier).Swept (drainTimes earlier).getLast?) :
    ((∃ r, ((s.perform earlier).drain now).2 = .ok r) ∧
        ((s.perform earlier).drain now).1.Swept (some now)) ∨
      ((s.writer.listLimit : Int) - 1) * s.writer.interval.millis ≤
        max s.writer.settings.cleanupPeriod 0 := by
  have hsettings := s.settings_perform earlier
  have hon := h.enabled
  have hgaps := htimely.gaps
  rw [drainTimes_append] at hgaps
  have haborts : ¬(s.perform earlier).Aborts (.drain now) := fun h => hwhole h.2
  rw [failedDeletions, cleaning?_of_not_aborts haborts, beforeCleanup?, if_pos hon] at hfailed
  have hgap : ∀ t ∈ (drainTimes earlier).getLast?,
      now ≤ t + (s.perform earlier).writer.interval.millis := by
    intro t ht
    unfold Writer.interval
    rw [hsettings]
    exact (List.isChain_append.mp hgaps).2.2 t ht now rfl
  have hdrain := swept_drain hon hwhole hgap hfailed hswept
  unfold Writer.interval Writer.listLimit at hdrain
  rw [hsettings] at hdrain
  exact hdrain

/-- Throughout a timely run in which no deletion fails, the horizon keeps up, unless the cleanup
period is so long that a cleanup may be refused. -/
theorem swept_perform (hs : s.Untouched) {actions : List Action}
    (htimely : Timely s.writer.interval actions)
    (hwritable : ∀ e ∈ offered actions, e.isWritable s.log.strictNames = true)
    (hfailures : observe failedDeletions s actions = []) :
    (s.perform actions).Swept (drainTimes actions).getLast? ∨
      ((s.writer.listLimit : Int) - 1) * s.writer.interval.millis ≤
        max s.writer.settings.cleanupPeriod 0 := by
  -- By induction on the run from its end; only a drain sets the horizon a new time to keep up with.
  induction actions using List.reverseRecOn with
  | nil => exact Or.inl hs.horizon
  | append_singleton earlier a ih =>
    rw [observe_concat, List.append_eq_nil_iff] at hfailures
    have hearlier := writable_of_append hwritable
    have hpunctual := punctual_perform hs htimely.of_append hearlier
    rcases ih htimely.of_append hearlier hfailures.1 with hswept | hlong
    · rw [perform_concat, drainTimes_append]
      cases a with
      | drain now =>
        rw [List.getLast?_append]
        exact (swept_next hpunctual htimely (hpunctual.whole hearlier) hfailures.2
          hswept).imp_left And.right
      | cleanup now =>
        left
        rw [show drainTimes [Action.cleanup now] = [] from rfl, List.append_nil]
        apply swept_cleanup _ hfailures.2 hswept
        intro t ht
        exact htimely.le_of_append
          ((drainTimes_sublist earlier).subset (List.mem_of_getLast? ht)) (.head _)
      | put o =>
        left
        rw [show drainTimes [Action.put o] = [] from rfl, List.append_nil]
        exact swept_of_eq rfl rfl hswept
      | enable on =>
        left
        rw [show drainTimes [Action.enable on] = [] from rfl, List.append_nil]
        exact swept_of_eq rfl rfl hswept
      | fail faults =>
        left
        rw [show drainTimes [Action.fail faults] = [] from rfl, List.append_nil]
        exact swept_of_eq rfl rfl hswept
    · exact Or.inr hlong

end Refusal

/-- Two windows are written to and drained in time, and the first is deleted when the second is
sealed. -/
def inTime : List Action :=
  [.put (.event (startAt 5)), .put (.event (startAt 12)), .drain 15, .put (.event (startAt 15)),
    .drain 25, .drain 35]

/-- A torn event of one window is drained together with another one of the next window. -/
def tornInTime : List Action :=
  [.put (.event (startAt 12)), .drain 15, .put (.event (tornAt 17)), .put (.event (startAt 21)),
    .drain 25, .put (.event (startAt 26)), .drain 35, .drain 45]

end Ingestion

end RequestWindows
