import RequestWindows.Proofs.Store.Carry
import RequestWindows.Proofs.Store.Columns

namespace RequestWindows

/-- What can be done to the stores of a warehouse. -/
inductive StoreAction
  | create (shared : Option String) (window expiry : Int)
  | put (s : WindowStore) (half : Half) (id : String) (time : Int)
      (dimensions : List (String × Json))
  | rollover (target source : WindowStore)
  | remove (s : WindowStore)

/-- Whether an action removes the store with serial number `n`. -/
def StoreAction.Removes (n : Nat) : StoreAction → Prop
  | .remove s => s.serial = n
  | .create .. | .put .. | .rollover .. => False

namespace Warehouse

/-- What an action makes of the warehouse, if it succeeds. -/
def attempt (w : Warehouse) : StoreAction → Except StoreError Warehouse
  | .create shared window expiry => (w.create shared window expiry).map Prod.fst
  | .put s half id time dimensions => w.put s half id time dimensions
  | .rollover target source => (w.rollover target source).map Prod.fst
  | .remove s => .ok (w.remove s)

/-- The warehouse after an action. One that fails changes nothing. -/
def act (w : Warehouse) (a : StoreAction) : Warehouse := (w.attempt a).toOption.getD w

def perform (w : Warehouse) (actions : List StoreAction) : Warehouse := actions.foldl act w

/-- The rows that an action writes to the live store with serial number `n`. -/
def written (w : Warehouse) (n : Nat) : StoreAction → List (String × Half × HalfRow)
  | .put s half id time dimensions =>
    if s.serial = n then ((rowOf time dimensions).toOption.map (id, half, ·)).toList else []
  | .rollover target source =>
    if target.serial = n ∧ source.serial ≠ n then
      ((w.inFlightRows source).toOption.getD []).map fun r => (r.1, .start, r.2)
    else []
  | .create .. | .remove _ => []

/-- The rows that a sequence of actions writes to the live store with serial number `n`. -/
def writtenIn (w : Warehouse) (n : Nat) : List StoreAction → List (String × Half × HalfRow)
  | [] => []
  | a :: rest => w.written n a ++ (w.act a).writtenIn n rest

/-- The live store `s` of `w`, created in a warehouse with any history, and the rows that have been
written to it since, in order. -/
inductive Lives : Warehouse → WindowStore → List (String × Half × HalfRow) → Prop
  | created {before : List StoreAction} {shared : Option String} {window expiry : Int}
      {w : Warehouse} {s : WindowStore}
      (h : (empty.perform before).create shared window expiry = .ok (w, s)) : Lives w s []
  | act {w : Warehouse} {s : WindowStore} {writes : List (String × Half × HalfRow)}
      (h : Lives w s writes) (a : StoreAction) (ha : ¬a.Removes s.serial) :
      Lives (w.act a) s (writes ++ w.written s.serial a)

section Step

variable {w : Warehouse} {s : WindowStore} {t : StoredTable} {n : Nat}

theorem Puts.sound {w' : Warehouse} {t' : StoredTable} (hw : w.Sound)
    (ht : w.tables.get? n = some t) (h : w.Puts n t' w') (hdb : t'.database = t.database) :
    w'.Sound := by
  constructor
  · intro m u hu
    rw [h.get?] at hu
    rw [h.next]
    split at hu
    · next hm =>
      rw [hm]
      exact hw.serial_lt ht
    · exact hw.serial_lt hu
  · intro m u k hu hk
    rw [h.get?] at hu
    rw [h.next]
    split at hu
    · cases hu
      exact hw.owner_lt ht (hdb ▸ hk)
    · exact hw.owner_lt hu hk

theorem adds_of_create {shared : Option String} {window expiry : Int} {w' : Warehouse}
    (hw : w.Sound) (h : w.create shared window expiry = .ok (w', s)) :
    s = ⟨w.next, window, expiry⟩ ∧ w.Adds ⟨w.nextDatabase shared, window, .empty⟩ w' := by
  have he : 0 ≤ expiry := by
    refine Int.not_lt.mp fun hneg => ?_
    unfold create at h
    rw [if_pos hneg] at h
    cases h
  have hfree : ¬w.Taken shared window := by
    intro htaken
    rw [create_of_taken hw he htaken] at h
    cases h
  obtain ⟨w'', hcreate, hadds⟩ := create_of_free hw he hfree
  rw [hcreate] at h
  cases h
  exact ⟨rfl, hadds⟩

/-- Writing to a live store comes to writing the row that the dimensions and the time make. -/
theorem put_of_live (h : w.tables.get? s.serial = some t) (half : Half) (id : String) (time : Int)
    (dimensions : List (String × Json)) :
    w.put s half id time dimensions =
      (rowOf time dimensions).bind fun row => w.modify s (·.write id half row) := by
  unfold put rowOf
  rw [table_eq_ok.mpr h]
  cases (coerceDimensions dimensions).mapError StoreError.coercion <;> rfl

theorem put_of_row (h : w.tables.get? s.serial = some t) (half : Half) (id : String) {time : Int}
    {dimensions : List (String × Json)} {row : HalfRow} (hrow : rowOf time dimensions = .ok row) :
    ∃ w', w.put s half id time dimensions = .ok w' ∧
      w.Puts s.serial { t with rows := t.rows.write id half row } w' := by
  obtain ⟨w', hmod, hputs⟩ := modify_of_live h (·.write id half row)
  refine ⟨w', ?_, hputs⟩
  rw [put_of_live h, hrow]
  exact hmod

theorem live_of_put {w' : Warehouse} {half : Half} {id : String} {time : Int}
    {dimensions : List (String × Json)} (h : w.put s half id time dimensions = .ok w') :
    ∃ t, w.tables.get? s.serial = some t := by
  cases ht : w.tables.get? s.serial with
  | some t => exact ⟨t, rfl⟩
  | none =>
    have hgone : w.table s = .error (.removed s.window) := by
      unfold table
      rw [ht]
    unfold put at h
    rw [hgone] at h
    cases hc : (coerceDimensions dimensions).mapError StoreError.coercion <;> rw [hc] at h <;>
      cases h

theorem rollover_of_starts {target source : WindowStore} {starts : List (String × HalfRow)}
    (hne : target.serial ≠ source.serial) (ht : w.tables.get? target.serial = some t)
    (hstarts : w.inFlightRows source = .ok starts) :
    ∃ w' m, w.rollover target source = .ok (w', m) ∧
      w.Puts target.serial { t with rows := t.rows.carry starts } w' := by
  unfold rollover
  rw [if_neg hne, hstarts]
  by_cases hnil : starts = []
  · subst hnil
    exact ⟨w, 0, rfl, Puts.self ht⟩
  · obtain ⟨w', hmod, hputs⟩ := modify_of_live ht (·.carry starts)
    refine ⟨w', starts.length, ?_, hputs⟩
    change (if starts = [] then _ else _) = _
    rw [if_neg hnil, hmod]
    rfl

theorem starts_of_rollover {target source : WindowStore} {r : Warehouse × Nat}
    (h : w.rollover target source = .ok r) :
    target.serial ≠ source.serial ∧ ∃ starts, w.inFlightRows source = .ok starts ∧
      (starts = [] ∧ r.1 = w ∨ ∃ t, w.tables.get? target.serial = some t) := by
  unfold rollover at h
  by_cases hself : target.serial = source.serial
  · rw [if_pos hself] at h
    cases h
  rw [if_neg hself] at h
  refine ⟨hself, ?_⟩
  cases hstarts : w.inFlightRows source with
  | error e =>
    rw [hstarts] at h
    cases h
  | ok starts =>
    rw [hstarts] at h
    change (if starts = [] then _ else _) = _ at h
    refine ⟨starts, rfl, ?_⟩
    by_cases hnil : starts = []
    · rw [if_pos hnil] at h
      cases h
      exact .inl ⟨hnil, rfl⟩
    · rw [if_neg hnil] at h
      right
      cases ht : w.tables.get? target.serial with
      | some t => exact ⟨t, rfl⟩
      | none =>
        have hgone : w.modify target (·.carry starts) = .error (.removed target.window) := by
          unfold modify table
          rw [ht]
          rfl
        rw [hgone] at h
        cases h

theorem puts_of_put {w' : Warehouse} {half : Half} {id : String} {time : Int}
    {dimensions : List (String × Json)} (ht : w.tables.get? s.serial = some t)
    (h : w.put s half id time dimensions = .ok w') :
    w.Puts s.serial
      { t with rows := t.rows.feed (w.written s.serial (.put s half id time dimensions)) } w' := by
  cases hrow : rowOf time dimensions with
  | error e =>
    rw [put_of_live ht, hrow] at h
    cases h
  | ok row =>
    obtain ⟨w'', hput, hputs⟩ := put_of_row ht half id hrow
    rw [hput] at h
    cases h
    have hwritten : w.written s.serial (.put s half id time dimensions) = [(id, half, row)] := by
      rw [written, if_pos rfl, hrow]
      rfl
    rw [hwritten]
    exact hputs

theorem puts_of_rollover {target source : WindowStore} {r : Warehouse × Nat}
    (ht : w.tables.get? target.serial = some t) (h : w.rollover target source = .ok r) :
    w.Puts target.serial
      { t with rows := t.rows.feed (w.written target.serial (.rollover target source)) } r.1 := by
  obtain ⟨hne, starts, hstarts, _⟩ := starts_of_rollover h
  obtain ⟨w', m, hroll, hputs⟩ := rollover_of_starts hne ht hstarts
  rw [hroll] at h
  cases h
  have hwritten : w.written target.serial (.rollover target source) =
      starts.map fun r => (r.1, .start, r.2) := by
    rw [written, if_pos ⟨rfl, Ne.symm hne⟩, hstarts]
    rfl
  rw [hwritten, ← Table.carry_eq_feed]
  exact hputs

/-- What an action that succeeds does: it creates a store, writes to one, removes one or does
nothing. -/
inductive Effect (w : Warehouse) (a : StoreAction) (w' : Warehouse) : Prop
  | nothing (hw : w' = w) (hwritten : ∀ m, w.written m a = [])
  | adds (shared : Option String) (window : Int)
      (h : w.Adds ⟨w.nextDatabase shared, window, .empty⟩ w') (hwritten : ∀ m, w.written m a = [])
  | writes (n : Nat) (t : StoredTable) (ht : w.tables.get? n = some t)
      (h : w.Puts n { t with rows := t.rows.feed (w.written n a) } w')
      (hwritten : ∀ m, m ≠ n → w.written m a = [])
  | removes (s : WindowStore) (ha : a.Removes s.serial) (hw : w' = w.remove s)
      (hwritten : ∀ m, w.written m a = [])

theorem effect_of_attempt {a : StoreAction} {w' : Warehouse} (hw : w.Sound)
    (h : w.attempt a = .ok w') : w.Effect a w' := by
  cases a with
  | create shared window expiry =>
    cases hc : w.create shared window expiry with
    | error e =>
      rw [attempt, hc] at h
      cases h
    | ok r =>
      rw [attempt, hc] at h
      cases h
      exact .adds shared window (adds_of_create hw hc).2 fun m => rfl
  | put s half id time dimensions =>
    obtain ⟨t, ht⟩ := live_of_put h
    exact .writes s.serial t ht (puts_of_put ht h) fun m hm => if_neg (Ne.symm hm)
  | rollover target source =>
    cases hr : w.rollover target source with
    | error e =>
      rw [attempt, hr] at h
      cases h
    | ok r =>
      rw [attempt, hr] at h
      cases h
      obtain ⟨_, starts, hstarts, ⟨rfl, hsame⟩ | ⟨t, ht⟩⟩ := starts_of_rollover hr
      · refine .nothing hsame fun m => ?_
        rw [written, hstarts]
        exact ite_self []
      · exact .writes target.serial t ht (puts_of_rollover ht hr) fun m hm =>
          if_neg fun hc => hm hc.1.symm
  | remove s =>
    cases h
    exact .removes s rfl rfl fun m => rfl

/-- An action that fails writes nothing to a live store. -/
theorem written_of_failed {a : StoreAction} {e : StoreError} (ht : w.tables.get? n = some t)
    (h : w.attempt a = .error e) : w.written n a = [] := by
  cases a with
  | create shared window expiry => rfl
  | put s half id time dimensions =>
    by_cases hs : s.serial = n
    · subst hs
      cases hrow : rowOf time dimensions with
      | error e' =>
        rw [written, if_pos rfl, hrow]
        rfl
      | ok row =>
        obtain ⟨w', hput, _⟩ := put_of_row ht half id hrow
        rw [attempt, hput] at h
        cases h
    · exact if_neg hs
  | rollover target source =>
    by_cases hs : target.serial = n ∧ source.serial ≠ n
    · obtain ⟨rfl, hne⟩ := hs
      cases hstarts : w.inFlightRows source with
      | error e' =>
        rw [written, if_pos ⟨rfl, hne⟩, hstarts]
        rfl
      | ok starts =>
        obtain ⟨w', m, hroll, _⟩ := rollover_of_starts (Ne.symm hne) ht hstarts
        rw [attempt, hroll] at h
        cases h
    · exact if_neg hs
  | remove s => cases h

theorem Sound.act (hw : w.Sound) (a : StoreAction) : (w.act a).Sound := by
  unfold Warehouse.act
  cases h : w.attempt a with
  | error e => exact hw
  | ok w' =>
    change w'.Sound
    cases effect_of_attempt hw h with
    | nothing hsame _ => rw [hsame]; exact hw
    | adds shared window hadds _ => exact hw.of_adds rfl hadds
    | writes n t ht hputs _ => exact hputs.sound hw ht rfl
    | removes s _ hremoved _ =>
      rw [hremoved]
      exact hw.foldl_remove [s]

theorem Sound.perform (hw : w.Sound) (actions : List StoreAction) : (w.perform actions).Sound := by
  induction actions generalizing w with
  | nil => exact hw
  | cons a rest ih => exact ih (hw.act a)

/-- A live store keeps its rows but for those that an action writes to it, unless it is removed. -/
theorem rows_act (hw : w.Sound) (ht : w.tables.get? n = some t) {a : StoreAction}
    (ha : ¬a.Removes n) :
    ∃ t', (w.act a).tables.get? n = some t' ∧ t'.rows = t.rows.feed (w.written n a) := by
  unfold act
  cases h : w.attempt a with
  | error e =>
    rw [written_of_failed ht h]
    exact ⟨t, ht, rfl⟩
  | ok w' =>
    change ∃ t', w'.tables.get? n = some t' ∧ _
    cases effect_of_attempt hw h with
    | nothing hsame hwritten =>
      rw [hsame, hwritten]
      exact ⟨t, ht, rfl⟩
    | adds shared window hadds hwritten =>
      rw [hwritten]
      exact ⟨t, hadds.before hw.get?_next ht, rfl⟩
    | writes m u hu hputs hwritten =>
      rw [hputs.get?]
      by_cases hm : n = m
      · subst hm
        rw [hu] at ht
        cases ht
        exact ⟨_, if_pos rfl, rfl⟩
      · rw [hwritten n hm]
        exact ⟨t, (if_neg hm).trans ht, rfl⟩
    | removes s hs hremoved hwritten =>
      have hne : n ≠ s.serial := by
        rintro rfl
        exact ha hs
      rw [hremoved, hwritten, remove, KeyedList.get?_erase, if_neg hne]
      exact ⟨t, ht, rfl⟩

end Step

theorem Lives.perform {w : Warehouse} {s : WindowStore}
    {writes : List (String × Half × HalfRow)} (h : w.Lives s writes) {actions : List StoreAction}
    (hlive : ∀ a ∈ actions, ¬a.Removes s.serial) :
    (w.perform actions).Lives s (writes ++ w.writtenIn s.serial actions) := by
  induction actions generalizing w writes with
  | nil =>
    rw [writtenIn, List.append_nil]
    exact h
  | cons a rest ih =>
    rw [writtenIn, ← List.append_assoc]
    exact ih (h.act a (hlive a (.head _))) fun b hb => hlive b (.tail _ hb)

/-- The table of a live store holds the rows written to it, and no others. -/
theorem Lives.rows {w : Warehouse} {s : WindowStore} {writes : List (String × Half × HalfRow)}
    (h : w.Lives s writes) :
    w.Sound ∧ ∃ t, w.tables.get? s.serial = some t ∧ t.rows = Table.empty.feed writes := by
  induction h with
  | created hcreate =>
    obtain ⟨rfl, hadds⟩ := adds_of_create (sound_empty.perform _) hcreate
    exact ⟨(sound_empty.perform _).of_adds rfl hadds, _, hadds.at, rfl⟩
  | act _ a ha ih =>
    obtain ⟨hw, t, ht, hrows⟩ := ih
    obtain ⟨t', ht', hrows'⟩ := rows_act hw ht ha
    refine ⟨hw.act a, t', ht', ?_⟩
    rw [hrows', hrows, Table.feed_append]

end Warehouse

end RequestWindows
