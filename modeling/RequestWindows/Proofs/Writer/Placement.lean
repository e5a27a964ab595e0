import Mathlib.Data.List.Perm.Subperm
import RequestWindows.Proofs.Writer.Run

namespace RequestWindows

/-- Accepted events in their order, each with the log that holds it, if one does. -/
abbrev Placement := List (Event × Option (Int × Bool))

namespace Placement

/-- The events that a log holds. -/
def held (p : Placement) (f : Int × Bool) : List Event :=
  (p.filter fun x => x.2 = some f).map Prod.fst

def events (p : Placement) : List Event := p.map Prod.fst

/-- The placement after the logs are moved or, where `g` finds no other log, are gone. -/
def move (g : Int × Bool → Option (Int × Bool)) (p : Placement) : Placement :=
  p.map fun x => (x.1, x.2.bind g)

/-- Events placed each by itself. -/
def place (label : Event → Option (Int × Bool)) (events : List Event) : Placement :=
  events.map fun e => (e, label e)

variable (p q : Placement) {f : Int × Bool}

@[simp] theorem held_append : held (p ++ q) f = p.held f ++ q.held f := by
  unfold held
  rw [List.filter_append, List.map_append]

@[simp] theorem events_append : events (p ++ q) = p.events ++ q.events := List.map_append

@[simp] theorem events_move (g : Int × Bool → Option (Int × Bool)) :
    (p.move g).events = p.events := by
  unfold events move
  rw [List.map_map]
  rfl

@[simp] theorem events_place (label : Event → Option (Int × Bool)) (l : List Event) :
    (place label l).events = l := by
  unfold events place
  rw [List.map_map]
  exact List.map_id l

theorem held_place (label : Event → Option (Int × Bool)) (l : List Event) :
    (place label l).held f = l.filter fun e => label e = some f := by
  unfold held place
  rw [List.filter_map, List.map_map]
  exact List.map_id _

theorem held_move {g : Int × Bool → Option (Int × Bool)} :
    (p.move g).held f = (p.filter fun x => x.2.bind g = some f).map Prod.fst := by
  unfold held move
  rw [List.filter_map, List.map_map]
  rfl

variable {p}

/-- A log that holds what one other log held. -/
theorem held_move_of_eq {g : Int × Bool → Option (Int × Bool)} {f₀ : Int × Bool}
    (h : ∀ f', g f' = some f ↔ f' = f₀) : (p.move g).held f = p.held f₀ := by
  rw [held_move]
  unfold held
  congr 1
  apply List.filter_congr
  intro x _
  cases hx : x.2 with
  | none => simp
  | some f' => simp [h]

theorem held_move_of_ne {g : Int × Bool → Option (Int × Bool)} (h : ∀ f', g f' ≠ some f) :
    (p.move g).held f = [] := by
  rw [held_move, List.map_eq_nil_iff, List.filter_eq_nil_iff]
  intro x _
  cases hx : x.2 with
  | none => simp
  | some f' => simp [h]

theorem held_sublist : (p.held f).Sublist p.events := List.filter_sublist.map _

/-- The events of distinct logs are distinct ones of the placement. -/
theorem subperm_held {files : List (Int × Bool)} (h : files.Nodup) :
    (files.flatMap p.held).Subperm p.events := by
  -- All of them are those whose log is among the given ones.
  have hperm : (files.flatMap p.held).Perm
      ((p.filter fun x => x.2 ∈ files.map some).map Prod.fst) := by
    induction files with
    | nil => simp
    | cons f rest ih =>
      have hf : f ∉ rest := (List.nodup_cons.mp h).1
      have hsplit := List.filter_append_perm (fun x : Event × Option (Int × Bool) => x.2 = some f)
        (p.filter fun x => x.2 ∈ (f :: rest).map some)
      have hfirst : (p.filter fun x => x.2 ∈ (f :: rest).map some).filter (fun x => x.2 = some f) =
          p.filter fun x => x.2 = some f := by
        rw [List.filter_filter]
        apply List.filter_congr
        intro x _
        by_cases hx : x.2 = some f <;> simp [hx]
      have hothers : (p.filter fun x => x.2 ∈ (f :: rest).map some).filter
          (fun x => !decide (x.2 = some f)) = p.filter fun x => x.2 ∈ rest.map some := by
        rw [List.filter_filter]
        apply List.filter_congr
        intro x _
        by_cases hx : x.2 = some f
        · simp [hx, hf]
        · simp [hx]
      rw [hfirst, hothers] at hsplit
      rw [List.flatMap_cons]
      refine ((ih (List.nodup_cons.mp h).2).append_left _).trans ?_
      unfold held
      rw [← List.map_append]
      exact hsplit.map _
  exact hperm.subperm.trans (List.filter_sublist.map _).subperm

end Placement

namespace EventLog

/-- The logs hold exactly the events that are placed in them, in order, and each event is in a log
of its own window. -/
structure Placed (log : EventLog) (i : Interval) (p : Placement) : Prop where
  window : ∀ e f, (e, some f) ∈ p → e.window i = f.1
  bytes : ∀ k b, log.bytesOf k b = linesOf (p.held (k, b))

variable {log log' : EventLog} {i : Interval} {p : Placement} {key : Int} {events : List Event}

theorem Placed.append_none (h : log.Placed i p) (events : List Event) :
    log.Placed i (p ++ .place (fun _ => none) events) := by
  refine ⟨?_, ?_⟩
  · intro e f hf
    rcases List.mem_append.mp hf with hf | hf
    · exact h.window e f hf
    · obtain ⟨_, _, heq⟩ := List.mem_map.mp hf
      cases heq
  · intro k b
    rw [h.bytes, Placement.held_append, Placement.held_place]
    simp

theorem Placed.move {g : Int × Bool → Option (Int × Bool)} (h : log.Placed i p)
    (hkey : ∀ f f', g f = some f' → f'.1 = f.1)
    (hbytes : ∀ k b, log'.bytesOf k b = linesOf ((p.move g).held (k, b))) :
    log'.Placed i (p.move g) := by
  refine ⟨?_, hbytes⟩
  intro e f hf
  obtain ⟨⟨e', place⟩, hmem, heq⟩ := List.mem_map.mp hf
  cases place with
  | none => cases heq
  | some f' =>
    have he : e' = e := congrArg Prod.fst heq
    have hg : g f' = some f := congrArg Prod.snd heq
    rw [hkey f' f hg]
    exact h.window e f' (he ▸ hmem)

/-- The events of a sealed log are those of the open one that it was. -/
theorem Placed.seal (h : log.Placed i p) (hseal : log.sealWindow key = .ok (log', true)) :
    ∃ q : Placement, log'.Placed i q ∧ q.events = p.events := by
  let g (f : Int × Bool) : Option (Int × Bool) :=
    if f.1 = key then if f.2 then none else some (key, true) else some f
  rcases sealWindow_cases hseal with ⟨hfalse, _⟩ | ⟨_, _, hfree, e, he, hafter⟩
  · cases hfalse
  -- The open log is renamed, and its events with it. There was no log of the new name before.
  refine ⟨p.move g, ?_, p.events_move g⟩
  apply h.move
  · intro f f' hf
    simp only [g] at hf
    split at hf
    · next hk =>
      split at hf
      · cases hf
      · cases hf
        exact hk.symm
    · cases hf
      rfl
  · intro k b
    by_cases hk : k = key
    · subst hk
      cases b with
      | true =>
        have hmoved : ∀ f', g f' = some (k, true) ↔ f' = (k, false) := by
          rintro ⟨j, c⟩
          by_cases hj : j = k <;> cases c <;> simp [g, hj]
        have hentry : log'.logAt k true = log.logAt k false := by
          rw [hafter, if_pos rfl, if_pos rfl, he]
        rw [Placement.held_move_of_eq hmoved, bytesOf_eq hentry, h.bytes]
      | false =>
        have hnone : ∀ f', g f' ≠ some (k, false) := by
          rintro ⟨j, c⟩
          by_cases hj : j = k <;> cases c <;> simp [g, hj]
        have hentry : log'.logAt k false = none := by
          rw [hafter, if_pos rfl]
          rfl
        rw [Placement.held_move_of_ne hnone, bytesOf_of_none hentry]
        rfl
    · have hsame : ∀ f', g f' = some (k, b) ↔ f' = (k, b) := by
        rintro ⟨j, c⟩
        by_cases hj : j = key
        · cases c <;> simp [g, hj, Ne.symm hk]
        · simp [g, hj]
      have hentry : log'.logAt k b = log.logAt k b := by
        rw [hafter, if_neg hk]
      rw [Placement.held_move_of_eq hsame, bytesOf_eq hentry, h.bytes]

theorem Placed.seals {keys : List Int} (hseals : Ingestion.Seals log keys log')
    (h : log.Placed i p) : ∃ q : Placement, log'.Placed i q ∧ q.events = p.events := by
  induction hseals generalizing p with
  | nil log => exact ⟨p, h, rfl⟩
  | cons first _ ih =>
    obtain ⟨q, hq, hevents⟩ := h.seal first
    obtain ⟨r, hr, hevents'⟩ := ih hq
    exact ⟨r, hr, hevents'.trans hevents⟩

theorem Placed.delete (h : log.Placed i p) (keys : List Int) :
    ∃ q : Placement, (log.delete keys).1.Placed i q ∧ q.events = p.events := by
  obtain ⟨⟨gone, hgone⟩, _⟩ := log.delete_deleted keys
  let g (f : Int × Bool) : Option (Int × Bool) := if f ∈ gone then none else some f
  -- Events of a deleted log are placed nowhere, and all others stay.
  refine ⟨p.move g, ?_, p.events_move g⟩
  apply h.move
  · intro f f' hf
    simp only [g] at hf
    split at hf
    · cases hf
    · cases hf
      rfl
  · intro k b
    have hleft := hgone.left k b
    by_cases hk : (k, b) ∈ gone
    · have hnone : ∀ f', g f' ≠ some (k, b) := by
        intro f' hf'
        simp only [g] at hf'
        split at hf'
        · cases hf'
        · next hnot =>
          cases hf'
          exact hnot hk
      rw [if_pos hk] at hleft
      rw [Placement.held_move_of_ne hnone, bytesOf_of_none hleft]
      rfl
    · have hsame : ∀ f', g f' = some (k, b) ↔ f' = (k, b) := by
        intro f'
        simp only [g]
        split
        · next hin =>
          simp only [reduceCtorEq, false_iff]
          rintro rfl
          exact hk hin
        · simp
      rw [if_neg hk] at hleft
      rw [Placement.held_move_of_eq hsame, bytesOf_eq hleft, h.bytes]

section Relabel

variable {label : Event → Option (Int × Bool)}

theorem held_relabel_same (hnone : ∀ e ∈ events, label e ≠ some (key, false)) :
    (Placement.place (fun e => if e.window i = key then some (key, false) else label e)
      events).held (key, false) = events.filter fun e => e.window i = key := by
  rw [Placement.held_place]
  apply List.filter_congr
  intro e he
  by_cases hw : e.window i = key
  · simp [hw]
  · simp [hw, hnone e he]

theorem held_relabel_other {f : Int × Bool} (hf : f ≠ (key, false))
    (hfree : ∀ e ∈ events, e.window i = key → label e = none) :
    (Placement.place (fun e => if e.window i = key then some (key, false) else label e)
      events).held f = (Placement.place label events).held f := by
  rw [Placement.held_place, Placement.held_place]
  apply List.filter_congr
  intro e he
  by_cases hw : e.window i = key
  · simp [hw, hfree e he hw, Ne.symm hf]
  · simp [hw]

/-- An append places those of the last events that belong to its window, which were in no log. -/
theorem Placed.append (h : log.Placed i (p ++ .place label events))
    (hfree : ∀ e ∈ events, e.window i = key → label e = none)
    (hadd : log.addBytes key (linesOf (events.filter fun e => e.window i = key)) = .ok log') :
    log'.Placed i
      (p ++ .place (fun e => if e.window i = key then some (key, false) else label e) events) := by
  have hwindow : ∀ e ∈ events, ∀ f, label e = some f → e.window i = f.1 := by
    intro e he f hlabel
    apply h.window e f
    rw [← hlabel]
    exact List.mem_append_right _ (List.mem_map_of_mem he)
  refine ⟨?_, ?_⟩
  · intro e f hf
    rcases List.mem_append.mp hf with hf | hf
    · exact h.window e f (List.mem_append_left _ hf)
    · obtain ⟨e', hmem, heq⟩ := List.mem_map.mp hf
      have he : e' = e := congrArg Prod.fst heq
      have hlabel : (if e'.window i = key then some (key, false) else label e') = some f :=
        congrArg Prod.snd heq
      subst he
      split at hlabel
      · next hw =>
        cases hlabel
        exact hw
      · exact hwindow e' hmem f hlabel
  · intro k b
    have hold := h.bytes k b
    have hentry := logAt_of_addBytes hadd k b
    rw [Placement.held_append] at hold ⊢
    by_cases hk : k = key ∧ b = false
    · obtain ⟨rfl, rfl⟩ := hk
      -- No event was in the log before, so those of the window are added to what it holds.
      have hnone : ∀ e ∈ events, label e ≠ some (k, false) := by
        intro e he hlabel
        rw [hfree e he (hwindow e he _ hlabel)] at hlabel
        cases hlabel
      have hempty : (Placement.place label events).held (k, false) = [] := by
        rw [Placement.held_place, List.filter_eq_nil_iff]
        intro e he hlabel
        exact hnone e he (of_decide_eq_true hlabel)
      rw [hempty, List.append_nil] at hold
      rw [held_relabel_same hnone, linesOf_append, ← hold]
      exact bytesOf_of_addBytes hadd
    · have hother : ((k, b) : Int × Bool) ≠ (key, false) := by
        intro heq
        exact hk ⟨congrArg Prod.fst heq, congrArg Prod.snd heq⟩
      rw [if_neg hk] at hentry
      rw [held_relabel_other hother hfree, bytesOf_eq hentry]
      exact hold

end Relabel

end EventLog

namespace Ingestion

section Steps

variable {s : Ingestion} {p : Placement} {i : Interval} {events : List Event}

theorem placed_appendBatch (key : Int) {label : Event → Option (Int × Bool)}
    (hwhole : s.log.faults.partials = []) (h : s.log.Placed i (p ++ .place label events))
    (hfree : ∀ e ∈ events, e.window i = key → label e = none) :
    ∃ label', (s.appendBatch key (events.filter fun e => e.window i = key)).1.log.Placed i
        (p ++ .place label' events) ∧
      ∀ e, e.window i ≠ key → label' e = label e := by
  obtain ⟨_, hsame | ⟨_, _, hwrites, hadd⟩⟩ :=
    s.appendBatch_cases key (events.filter fun e => e.window i = key)
  · refine ⟨label, ?_, fun _ _ => rfl⟩
    rw [hsame]
    exact h
  · rw [hwrites.whole (by rw [hwhole]; rfl)] at hadd
    refine ⟨_, h.append hfree hadd, ?_⟩
    intro e he
    exact if_neg he

theorem placed_rotated (now : Int) (h : s.log.Placed i p) :
    ∃ q : Placement, (s.rotated now).log.Placed i q ∧ q.events = p.events :=
  EventLog.Placed.seals ((s.begun now).rotate_seals (s.writer.reference now)).2.1 h

/-- A drain places the events that it finds in the queue behind all that were accepted before. -/
theorem placed_routed (now : Int) (hwhole : s.log.faults.partials = [])
    (h : s.log.Placed s.writer.interval p) :
    ∃ q : Placement, (s.routed now).log.Placed s.writer.interval q ∧
      q.events = p.events ++ s.queue.events := by
  obtain ⟨hrotated, hhalf, _⟩ := s.onlyLogs_appended now
  have hwhole₁ : (s.rotated now).log.faults.partials = [] := by
    rw [hrotated.faults]
    exact hwhole
  have hwhole₂ : (s.halfRouted now).log.faults.partials = [] := by
    rw [hhalf.faults]
    exact hwhole₁
  obtain ⟨q, hq, hevents⟩ := placed_rotated now h
  have hqueued := hq.append_none s.queue.events
  obtain ⟨label, hlabel, hothers⟩ :=
    placed_appendBatch (s.writer.reference now) hwhole₁ hqueued (fun _ _ _ => rfl)
  have hnext : ∀ e ∈ s.queue.events,
      e.window s.writer.interval = s.writer.reference now + s.writer.interval.millis →
        label e = none := by
    intro e _ he
    apply hothers
    have hpos := s.writer.interval.pos
    omega
  obtain ⟨label', hlabel', _⟩ := placed_appendBatch (s := s.halfRouted now) _ hwhole₂ hlabel hnext
  rw [log_routed, appended, upcoming]
  split
  · -- A drain that has broken off leaves the rest of its events in no log.
    refine ⟨_, hlabel, ?_⟩
    rw [Placement.events_append, Placement.events_place, hevents]
  · refine ⟨_, hlabel', ?_⟩
    rw [Placement.events_append, Placement.events_place, hevents]

theorem placed_cleanup (now : Int) (h : s.log.Placed i p) :
    ∃ q : Placement, (s.cleanup now).1.log.Placed i q ∧ q.events = p.events := by
  have hcase := s.cleanup_cleanup now
  cases hc : s.cleanup now with
  | mk t outcome =>
    rw [hc] at hcase
    cases hcase with
    | unstarted _ => exact ⟨p, h, rfl⟩
    | early _ _ => exact ⟨p, h, rfl⟩
    | refused _ _ _ => exact ⟨p, h, rfl⟩
    | due _ _ _ => exact h.delete _

/-- After each step the placed and the queued events are those that were accepted. -/
theorem placed_act (a : Action) (hwhole : s.log.faults.partials = [])
    (h : s.log.Placed s.writer.interval p) :
    ∃ q : Placement, (s.act a).log.Placed s.writer.interval q ∧
      q.events ++ (s.act a).queue.events = p.events ++ s.queue.events ++ s.taken a := by
  cases a with
  | put o =>
    refine ⟨p, h, ?_⟩
    change p.events ++ (s.put o).1.queue.events = _
    rw [events_put, List.append_assoc]
  | drain now =>
    change ∃ q : Placement, (s.drain now).1.log.Placed _ q ∧
      q.events ++ (s.drain now).1.queue.events = _
    -- While the writer is disabled, a drain throws the queued events away.
    by_cases hon : s.writer.enabled = true
    · obtain ⟨q, hq, hevents⟩ := placed_routed now hwhole h
      obtain ⟨r, hr, hevents'⟩ := placed_cleanup now hq
      rw [queue_drain]
      refine drain_cases (P := fun t => ∃ q : Placement, t.log.Placed s.writer.interval q ∧
        q.events ++ s.queue.drain.2.events = p.events ++ s.queue.events ++ s.taken (.drain now))
        now hon (fun _ => ⟨q, hq, ?_⟩) fun _ => ⟨r, hr, ?_⟩
      · rw [hevents]
        rfl
      · rw [hevents', hevents]
        rfl
    · rw [drain_of_not_enabled now hon]
      refine ⟨_, h.append_none s.queue.events, ?_⟩
      rw [Placement.events_append, Placement.events_place]
      rfl
  | cleanup now =>
    obtain ⟨q, hq, hevents⟩ := placed_cleanup now h
    refine ⟨q, hq, ?_⟩
    change q.events ++ (s.cleanup now).1.queue.events = _
    rw [hevents, queue_cleanup]
    exact (List.append_nil _).symm
  | enable on => exact ⟨p, h, (List.append_nil _).symm⟩
  | fail faults => exact ⟨p, ⟨h.window, h.bytes⟩, (List.append_nil _).symm⟩

theorem placed_perform (actions : List Action) (hwhole : s.AllOrNothing actions)
    (h : s.log.Placed s.writer.interval p) :
    ∃ q : Placement, (s.perform actions).log.Placed s.writer.interval q ∧
      q.events ++ (s.perform actions).queue.events =
        p.events ++ s.queue.events ++ s.accepted actions := by
  induction actions generalizing s p with
  | nil => exact ⟨p, h, (List.append_nil _).symm⟩
  | cons a rest ih =>
    have hinterval : (s.act a).writer.interval = s.writer.interval :=
      congrArg WriterSettings.interval (s.settings_act a)
    obtain ⟨q, hq, hevents⟩ := placed_act a hwhole.1 h
    rw [← hinterval] at hq
    obtain ⟨r, hr, hevents'⟩ := ih hwhole.act hq
    rw [hinterval] at hr
    refine ⟨r, hr, ?_⟩
    change r.events ++ ((s.act a).perform rest).queue.events = _
    rw [hevents', hevents, accepted, accepted, observe, List.append_assoc]

end Steps

/-- In a directory that began without logs, as long as appends that fail write nothing, every log
holds events of its own window in the order in which the queue accepted them, and no accepted event
is held twice. -/
theorem logs_hold_accepted (s : Ingestion) (actions : List Action)
    (hfresh : ∀ k b bytes, s.log.logAt k b ≠ some (.file bytes))
    (hwhole : s.AllOrNothing actions) :
    ∃ written : Int × Bool → List Event,
      (∀ k b, (s.perform actions).log.bytesOf k b = EventLog.linesOf (written (k, b))) ∧
      (∀ k b, ∀ e ∈ written (k, b), e.window s.writer.interval = k) ∧
      (∀ f, (written f).Sublist (s.queue.events ++ s.accepted actions)) ∧
      ∀ files : List (Int × Bool), files.Nodup →
        (files.flatMap written).Subperm (s.queue.events ++ s.accepted actions) := by
  -- Without logs nothing is placed at first.
  have hnone : s.log.Placed s.writer.interval [] := by
    refine ⟨fun _ _ h => absurd h List.not_mem_nil, ?_⟩
    intro k b
    unfold EventLog.bytesOf
    split
    · next bytes hb => exact absurd hb (hfresh k b bytes)
    · rfl
  obtain ⟨q, hq, hevents⟩ := placed_perform actions hwhole hnone
  have hprefix : q.events.Sublist (s.queue.events ++ s.accepted actions) := by
    change _ = [] ++ s.queue.events ++ _ at hevents
    rw [List.nil_append] at hevents
    rw [← hevents]
    exact List.sublist_append_left _ _
  refine ⟨q.held, hq.bytes, ?_, ?_, ?_⟩
  · intro k b e he
    obtain ⟨⟨e', place⟩, hmem, rfl⟩ := List.mem_map.mp he
    obtain ⟨hmem, hplace⟩ := List.mem_filter.mp hmem
    have hplace : place = some (k, b) := of_decide_eq_true hplace
    exact hq.window e' (k, b) (hplace ▸ hmem)
  · intro f
    exact Placement.held_sublist.trans hprefix
  · intro files hfiles
    exact (Placement.subperm_held hfiles).trans hprefix.subperm

/-- Two windows are written to, and then the first one is sealed. -/
def twoWindows : List Action :=
  [.put (.event (startAt 5)), .put (.event (startAt 12)), .drain 15, .put (.event (startAt 7)),
    .drain 16, .drain 25]

theorem first_log_holds_two :
    (∀ k b bytes, tenMillis.log.logAt k b ≠ some (.file bytes)) ∧
      tenMillis.AllOrNothing twoWindows ∧ ∃ written : Int × Bool → List Event,
        EventLog.linesOf (written (0, true)) = EventLog.linesOf [startAt 5, startAt 7] ∧
        (written (0, true) ++ written (10, false)).Subperm [startAt 5, startAt 12, startAt 7] := by
  have hfresh : ∀ k b bytes, tenMillis.log.logAt k b ≠ some (.file bytes) := by
    intro k b bytes h
    cases h
  have hwhole : tenMillis.AllOrNothing twoWindows := by
    refine ⟨rfl, fun faults h => ?_⟩
    simp [twoWindows] at h
  obtain ⟨written, hbytes, _, _, honce⟩ := logs_hold_accepted tenMillis twoWindows hfresh hwhole
  refine ⟨hfresh, hwhole, written, ?_, ?_⟩
  · rw [← hbytes]
    decide +kernel
  · have htwo := honce [(0, true), (10, false)] (by decide)
    rw [List.flatMap_cons, List.flatMap_cons, List.flatMap_nil, List.append_nil] at htwo
    exact htwo

end Ingestion

end RequestWindows
