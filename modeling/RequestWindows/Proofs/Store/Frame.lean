import RequestWindows.Proofs.Store.Statements

namespace RequestWindows

/-- The serial number of the store that an action is on, unless it is to create one. A rollover is
on its target. -/
def StoreAction.subject? : StoreAction → Option Nat
  | .create .. => none
  | .put s .. => some s.serial
  | .rollover target _ => some target.serial
  | .remove s => some s.serial

instance (n : Nat) (a : StoreAction) : Decidable (a.Removes n) :=
  match a with
  | .remove s => inferInstanceAs (Decidable (s.serial = n))
  | .create .. | .put .. | .rollover .. => inferInstanceAs (Decidable False)

theorem StoreAction.subject?_of_removes {a : StoreAction} {n : Nat} (h : a.Removes n) :
    a.subject? = some n := by
  cases a with
  | remove s => exact congrArg some h
  | create => cases h
  | put => cases h
  | rollover => cases h

namespace Warehouse

/-- All that a store answers. -/
structure Views where
  grouped : Except StoreError (List Request)
  latencies : Except StoreError (List CompletedRequest)
  aggregates : Except StoreError (List OperationAggregate)
  inFlight : Except StoreError (List Request)
  halfRows : Except StoreError (List (String × Half × HalfRow))
  size : Except StoreError Nat

def views (w : Warehouse) (s : WindowStore) : Views :=
  ⟨w.grouped s, w.latencies s, w.aggregates s, w.inFlight s, w.halfRows s, w.size s⟩

/-- One failure for all views. -/
def Views.failed (e : StoreError) : Views :=
  ⟨.error e, .error e, .error e, .error e, .error e, .error e⟩

theorem views_eq_of_rows {w w' : Warehouse} {s s' : WindowStore} (hrows : w.rows s = w'.rows s')
    (hhorizon : s.horizon = s'.horizon) : w.views s = w'.views s' := by
  obtain ⟨hgrouped, hlatencies, haggregates, hinFlight⟩ := views_congr hrows hhorizon
  unfold views halfRows size
  rw [hgrouped, hlatencies, haggregates, hinFlight, hrows]

/-- A store refuses every statement, and nothing that is done to it changes anything. -/
structure Refuses (w : Warehouse) (s : WindowStore) : Prop where
  views : w.views s = .failed (.removed s.window)
  put : ∀ half id time dimensions values, coerceDimensions dimensions = .ok values →
    w.execute (.put s half id time dimensions) = (w, some (.removed s.window))
  rollover_from : ∀ target, target.serial ≠ s.serial →
    w.execute (.rollover target s) = (w, some (.removed s.window))
  rollover_to : ∀ source requests, s.serial ≠ source.serial →
    w.inFlight source = .ok requests → requests ≠ [] →
      w.execute (.rollover s source) = (w, some (.removed s.window))
  remove : w.execute (.remove s) = (w, none)
  unchanged : ∀ a : StoreAction, a.subject? = some s.serial → (w.execute a).1 = w

section Act

variable {w w' : Warehouse} {a : StoreAction} {s : WindowStore} {t : StoredTable} {n : Nat}

theorem execute_fst (w : Warehouse) (a : StoreAction) : (w.execute a).1 = w.act a := by
  rw [execute_eq_attempt]
  unfold act
  cases w.attempt a <;> rfl

theorem act_of_ok (h : w.attempt a = .ok w') : w.act a = w' := by
  rw [act, h]
  rfl

theorem act_of_error {e : StoreError} (h : w.attempt a = .error e) : w.act a = w := by
  rw [act, h]
  rfl

theorem next_le_act (hw : w.Sound) (a : StoreAction) : w.next ≤ (w.act a).next := by
  cases h : w.attempt a with
  | error e => rw [act_of_error h]
  | ok w' =>
    rw [act_of_ok h]
    cases effect_of_attempt hw h with
    | nothing hsame => rw [hsame]
    | adds _ _ hadds =>
      rw [hadds.next]
      omega
    | writes _ _ _ hputs => rw [hputs.next]
    | removes s _ hremoved => rw [hremoved, remove]

theorem written_of_other (h : a.subject? ≠ some n) : w.written n a = [] := by
  cases a with
  | put s =>
    refine if_neg fun hs => h ?_
    rw [StoreAction.subject?, hs]
  | rollover target source =>
    refine if_neg fun hs => h ?_
    rw [StoreAction.subject?, hs.1]
  | create => rfl
  | remove => rfl

/-- An action on a live store writes its rows there, if it does not remove the store; one that fails
has no rows to write. -/
theorem puts_act (ht : w.tables.get? n = some t) (ha : a.subject? = some n) (hkept : ¬a.Removes n) :
    w.Puts n { t with rows := t.rows.feed (w.written n a) } (w.act a) := by
  cases h : w.attempt a with
  | error e =>
    rw [written_of_failed ht h, act_of_error h]
    exact Puts.self ht
  | ok w' =>
    rw [act_of_ok h]
    cases a with
    | create => cases ha
    | remove s => exact absurd (Option.some.inj ha) hkept
    | put s half id time dimensions =>
      cases ha
      exact puts_of_put ht h
    | rollover target source =>
      cases ha
      cases hroll : w.rollover target source with
      | error e =>
        rw [attempt, hroll] at h
        cases h
      | ok r =>
        rw [attempt, hroll] at h
        cases h
        exact puts_of_rollover ht hroll

theorem remove_of_gone (h : w.tables.get? s.serial = none) : w.remove s = w := by
  have hkept : w.tables.erase s.serial = w.tables := by
    apply KeyedList.ext
    apply List.filter_eq_self.mpr
    rintro ⟨m, t⟩ hm
    refine decide_eq_true fun hs => ?_
    have ht : w.tables.get? m = some t := KeyedList.mem_entries_iff.mp hm
    rw [show m = s.serial from hs, h] at ht
    cases ht
  rw [remove, hkept]

/-- Nothing that is done to a store that has been removed changes anything. -/
theorem act_of_gone (hn : w.tables.get? n = none) (ha : a.subject? = some n) : w.act a = w := by
  cases h : w.attempt a with
  | error e => exact act_of_error h
  | ok w' =>
    rw [act_of_ok h]
    cases a with
    | create => cases ha
    | put s half id time dimensions =>
      cases ha
      obtain ⟨t, ht⟩ := live_of_put h
      rw [hn] at ht
      cases ht
    | rollover target source =>
      cases ha
      cases hroll : w.rollover target source with
      | error e =>
        rw [attempt, hroll] at h
        cases h
      | ok r =>
        rw [attempt, hroll] at h
        cases h
        obtain ⟨_, _, _, ⟨_, hsame⟩ | ⟨t, ht⟩⟩ := starts_of_rollover hroll
        · exact hsame
        · rw [hn] at ht
          cases ht
    | remove s =>
      cases ha
      cases h
      exact remove_of_gone hn

theorem get?_act_of_removes (h : a.Removes n) : (w.act a).tables.get? n = none := by
  cases a with
  | remove s =>
    cases h
    exact (KeyedList.get?_erase w.tables s.serial s.serial).trans (if_pos rfl)
  | create => cases h
  | put => cases h
  | rollover => cases h

theorem get?_act_of_ne {m : Nat} (ha : a.subject? = some m) (hne : n ≠ m) :
    (w.act a).tables.get? n = w.tables.get? n := by
  by_cases hremoves : a.Removes m
  · cases a with
    | remove s =>
      cases ha
      exact (KeyedList.get?_erase w.tables s.serial n).trans (if_neg hne)
    | create => cases hremoves
    | put => cases hremoves
    | rollover => cases hremoves
  · cases hm : w.tables.get? m with
    | none => rw [act_of_gone hm ha]
    | some t => rw [(puts_act hm ha hremoves).get?, if_neg hne]

/-- An action that is on no store yet either fails or creates one, for a window that its database
has no table for. -/
theorem act_of_no_subject (hw : w.Sound) (ha : a.subject? = none) :
    ∃ shared window expiry, a = .create shared window expiry ∧
      ((∃ e, w.create shared window expiry = .error e ∧ w.act a = w) ∨
        w.create shared window expiry = .ok (w.act a, ⟨w.next, window, expiry⟩) ∧
          ¬w.hasTable (w.nextDatabase shared) window = true ∧
          w.Adds ⟨w.nextDatabase shared, window, .empty⟩ (w.act a)) := by
  cases a with
  | put => cases ha
  | rollover => cases ha
  | remove => cases ha
  | create shared window expiry =>
    refine ⟨shared, window, expiry, rfl, ?_⟩
    cases hcreate : w.create shared window expiry with
    | error e =>
      have hfailed : w.attempt (.create shared window expiry) = .error e := by
        rw [attempt, hcreate]
        rfl
      exact .inl ⟨e, rfl, act_of_error hfailed⟩
    | ok r =>
      obtain ⟨hs, hadds⟩ := adds_of_create hw hcreate
      have hdone : w.attempt (.create shared window expiry) = .ok r.1 := by
        rw [attempt, hcreate]
        rfl
      have hfree : ¬w.hasTable (w.nextDatabase shared) window = true := by
        intro htaken
        by_cases he : 0 ≤ expiry
        · rw [create_of_taken hw he ((hasTable_nextDatabase hw shared window).mp htaken)] at hcreate
          cases hcreate
        · unfold create at hcreate
          rw [if_pos (Int.not_le.mp he)] at hcreate
          cases hcreate
      rw [act_of_ok hdone, ← hs]
      exact .inr ⟨rfl, hfree, hadds⟩

/-- An action does nothing to a store that it is not on. One that creates a store is on none of
those that there have been. -/
theorem get?_act_of_other (hw : w.Sound) (hn : n < w.next) (ha : a.subject? ≠ some n) :
    (w.act a).tables.get? n = w.tables.get? n := by
  cases hsubject : a.subject? with
  | none =>
    obtain ⟨_, _, _, _, ⟨_, _, hsame⟩ | ⟨_, _, hadds⟩⟩ := act_of_no_subject hw hsubject
    · rw [hsame]
    · rw [hadds.get?, if_neg (Nat.ne_of_lt hn)]
  | some m =>
    apply get?_act_of_ne hsubject
    rintro rfl
    exact ha hsubject

/-- So the answers of a store are the same before and after an action on another one. -/
theorem views_execute_of_other (hw : w.Sound) (hs : s.serial < w.next)
    (ha : a.subject? ≠ some s.serial) :
    (w.execute a).1.rows s = w.rows s ∧ (w.execute a).1.views s = w.views s := by
  have hrows : (w.act a).rows s = w.rows s := by
    unfold rows table
    rw [get?_act_of_other hw hs ha]
  rw [execute_fst]
  exact ⟨hrows, views_eq_of_rows hrows rfl⟩

theorem refuses_of_gone (h : w.tables.get? s.serial = none) : w.Refuses s := by
  have htable : w.table s = .error (.removed s.window) := by
    unfold table
    rw [h]
  have hrows : w.rows s = .error (.removed s.window) := by
    rw [rows, htable]
    rfl
  have hstarts : w.inFlightRows s = .error (.removed s.window) := by
    rw [inFlightRows, hrows]
    rfl
  have hlatencies : w.latencies s = .error (.removed s.window) := by
    rw [latencies, hrows]
    rfl
  constructor
  case views =>
    unfold Warehouse.views grouped aggregates inFlight halfRows size
    rw [hrows, hlatencies, hstarts]
    rfl
  case put =>
    intro half id time dimensions values hvalues
    rw [execute, hvalues]
    exact insertEach_removed h _ _
  case rollover_from =>
    intro target hne
    have hinFlight : w.inFlight s = .error (.removed s.window) := by
      rw [inFlight, hstarts]
      rfl
    rw [execute, if_neg hne, hinFlight]
  case rollover_to =>
    intro source requests hne hrequests hnonempty
    rw [execute, if_neg hne, hrequests]
    unfold inFlight at hrequests
    cases hsource : w.inFlightRows source with
    | error e =>
      rw [hsource] at hrequests
      cases hrequests
    | ok starts =>
      rw [hsource] at hrequests
      cases hrequests
      -- Every request in flight has a start, so there is a first statement to refuse.
      change w.insertEach s ((starts.map _).filterMap Request.insertion?) = _
      rw [insertions_started]
      cases starts with
      | nil => exact absurd rfl hnonempty
      | cons r rest => exact insertEach_removed h _ _
  case remove =>
    rw [execute, remove_of_gone h]
  case unchanged =>
    intro a ha
    rw [execute_fst, act_of_gone h ha]

end Act

end Warehouse

end RequestWindows
