import RequestWindows.Proofs.Store.Live
import RequestWindows.Reader.Load

namespace RequestWindows

/-- The row that an event makes, if its dimensions and its time fit the columns. -/
def Event.row (e : Event) : Except StoreError HalfRow := do
  let values ← (coerceDimensions e.bindings).mapError .coercion
  HalfRow.make (.ofList values) e.emittedAt

/-- Whether an event breaks off the replay of its log. -/
def Event.isFatal (e : Event) : Bool :=
  match e.row with
  | .ok _ => false
  | .error (.coercion (.notInteger _ _)) => false
  | .error _ => true

/-- The half that an entry records: that of an event which makes a row. -/
def recordedHalf (entry : Option Event) : Option (String × Half × HalfRow) :=
  entry.bind fun e => e.row.toOption.map (e.correlationId, e.half, ·)

/-- The halves that the entries of a log record, in their order. -/
def recorded (entries : List (Option Event)) : List (String × Half × HalfRow) :=
  entries.filterMap recordedHalf

/-- The number of entries that record nothing. -/
def droppedCount (entries : List (Option Event)) : Nat :=
  entries.countP fun entry => (recordedHalf entry).isNone

/-- The last row among some halves for one half of a request. -/
def lastRow (halves : List (String × Half × HalfRow)) (id : String) (half : Half) :
    Option HalfRow :=
  (halves.filterMap fun r => if r.1 = id ∧ r.2.1 = half then some r.2.2 else none).getLast?

def Table.feed (t : Table) (halves : List (String × Half × HalfRow)) : Table :=
  halves.foldl (fun t r => t.write r.1 r.2.1 r.2.2) t

theorem Table.feed_append (t : Table) (a b : List (String × Half × HalfRow)) :
    t.feed (a ++ b) = (t.feed a).feed b :=
  List.foldl_append

@[simp] theorem Table.get?_empty (id : String) (half : Half) :
    Table.empty.get? id half = none := rfl

theorem lastRow_cons (r : String × Half × HalfRow) (halves : List (String × Half × HalfRow))
    (id : String) (half : Half) :
    lastRow (r :: halves) id half =
      (lastRow halves id half).or (if r.1 = id ∧ r.2.1 = half then some r.2.2 else none) := by
  unfold lastRow
  rw [List.filterMap_cons]
  by_cases h : r.1 = id ∧ r.2.1 = half
  · simp only [if_pos h]
    rw [List.getLast?_cons]
    cases (List.filterMap _ halves).getLast? <;> rfl
  · simp only [if_neg h, Option.or_none]

theorem mem_of_lastRow {halves : List (String × Half × HalfRow)} {id : String} {half : Half}
    {row : HalfRow} (h : lastRow halves id half = some row) : (id, half, row) ∈ halves := by
  have hm := List.mem_of_getLast? h
  obtain ⟨r, hr, he⟩ := List.mem_filterMap.mp hm
  split at he
  · next hc =>
    obtain ⟨h1, h2⟩ := hc
    cases he
    subst h1 h2
    exact hr
  · cases he

theorem lastRow_eq_none_iff {halves : List (String × Half × HalfRow)} {id : String} {half : Half} :
    lastRow halves id half = none ↔ ∀ row, (id, half, row) ∉ halves := by
  unfold lastRow
  rw [List.getLast?_eq_none_iff, List.filterMap_eq_nil_iff]
  constructor
  · intro h row hm
    have := h _ hm
    simp at this
  · intro h r hm
    rw [if_neg]
    rintro ⟨rfl, rfl⟩
    exact h r.2.2 hm

theorem lastRow_of_unique {halves : List (String × Half × HalfRow)} {id : String} {half : Half}
    {row : HalfRow} (hm : (id, half, row) ∈ halves)
    (hu : ∀ row', (id, half, row') ∈ halves → row' = row) : lastRow halves id half = some row := by
  cases h : lastRow halves id half with
  | none => exact absurd hm (lastRow_eq_none_iff.mp h row)
  | some r => rw [hu r (mem_of_lastRow h)]

/-- Of all rows written for a half the last one stays, and a half that is not written keeps the row
it had. -/
theorem Table.get?_feed (t : Table) (halves : List (String × Half × HalfRow)) (id : String)
    (half : Half) :
    (t.feed halves).get? id half = (lastRow halves id half).or (t.get? id half) := by
  -- The first half is written into `t`, and all others after it take precedence.
  induction halves generalizing t with
  | nil => rfl
  | cons r halves ih =>
    have hstep : (t.feed (r :: halves)) = (t.write r.1 r.2.1 r.2.2).feed halves := rfl
    rw [hstep, ih, lastRow_cons, Option.or_assoc, Table.get?_write]
    congr 1
    by_cases h : id = r.1 ∧ half = r.2.1
    · rw [if_pos h, if_pos ⟨h.1.symm, h.2.symm⟩]
      rfl
    · rw [if_neg h, if_neg (fun hc => h ⟨hc.1.symm, hc.2.symm⟩)]
      rfl

theorem Event.time_of_row {e : Event} {row : HalfRow} (h : e.row = .ok row) :
    row.time = e.emittedAt := by
  unfold Event.row at h
  cases hc : (coerceDimensions e.bindings).mapError StoreError.coercion with
  | error err => rw [hc] at h; cases h
  | ok values =>
    rw [hc] at h
    change HalfRow.make (.ofList values) e.emittedAt = .ok row at h
    unfold HalfRow.make at h
    split at h
    · split at h
      · cases h
        rfl
      · cases h
    · cases h

theorem mem_recorded {entries : List (Option Event)} {id : String} {half : Half} {row : HalfRow} :
    (id, half, row) ∈ recorded entries ↔
      ∃ e, some e ∈ entries ∧ e.correlationId = id ∧ e.half = half ∧ e.row = .ok row := by
  unfold recorded
  rw [List.mem_filterMap]
  constructor
  · rintro ⟨entry, hm, he⟩
    cases entry with
    | none => cases he
    | some e =>
      change e.row.toOption.map (e.correlationId, e.half, ·) = some (id, half, row) at he
      cases hr : e.row with
      | error err => rw [hr] at he; cases he
      | ok r =>
        rw [hr] at he
        cases he
        exact ⟨e, hm, rfl, rfl, hr⟩
  · rintro ⟨e, hm, rfl, rfl, hr⟩
    refine ⟨some e, hm, ?_⟩
    change e.row.toOption.map (e.correlationId, e.half, ·) = _
    rw [hr]
    rfl

namespace Warehouse

/-- Writing an event to a live store comes to writing its row, if it makes one. -/
theorem put_event {w : Warehouse} {s : WindowStore} {t : StoredTable}
    (h : w.tables.get? s.serial = some t) (e : Event) :
    w.put s e.half e.correlationId e.emittedAt e.bindings =
      e.row.bind fun row => w.modify s (·.write e.correlationId e.half row) := by
  unfold put Event.row
  rw [table_eq_ok.mpr h]
  cases (coerceDimensions e.bindings).mapError StoreError.coercion <;> rfl

section Replay

variable {w : Warehouse} {s : WindowStore} {t : StoredTable} {e : Event}

theorem replay_none (rest : List (Option Event)) :
    w.replay s (none :: rest) =
      ((w.replay s rest).1, (w.replay s rest).2.1 + 1, (w.replay s rest).2.2) := rfl

theorem replay_row (hlive : w.tables.get? s.serial = some t) {row : HalfRow}
    (hrow : e.row = .ok row) (rest : List (Option Event)) :
    ∃ w', w.replay s (some e :: rest) = w'.replay s rest ∧
      w.Puts s.serial { t with rows := t.rows.write e.correlationId e.half row } w' := by
  obtain ⟨w', hmod, hp⟩ := modify_of_live hlive (·.write e.correlationId e.half row)
  have hput : w.put s e.half e.correlationId e.emittedAt e.bindings = .ok w' := by
    rw [put_event hlive, hrow]
    exact hmod
  refine ⟨w', ?_, hp⟩
  rw [replay, hput]

theorem replay_notInteger (hlive : w.tables.get? s.serial = some t) {d : Dimension}
    {shown : List Char} (hrow : e.row = .error (.coercion (.notInteger d shown)))
    (rest : List (Option Event)) :
    w.replay s (some e :: rest) =
      ((w.replay s rest).1, (w.replay s rest).2.1 + 1, (w.replay s rest).2.2) := by
  rw [replay, put_event hlive, hrow]
  rfl

theorem replay_fatal (hlive : w.tables.get? s.serial = some t) (hfatal : e.isFatal = true)
    (rest : List (Option Event)) :
    ∃ err, w.replay s (some e :: rest) = (w, 0, some err) := by
  unfold Event.isFatal at hfatal
  split at hfatal
  · cases hfatal
  · cases hfatal
  · next err hne hrow =>
    have hput : w.put s e.half e.correlationId e.emittedAt e.bindings = .error err := by
      rw [put_event hlive, hrow]
      rfl
    refine ⟨err, ?_⟩
    rw [replay, hput]
    split
    · next heq => cases heq
    · next d shown heq => cases heq; exact absurd rfl (hne d shown)
    · next heq => cases heq; rfl

theorem row_of_not_fatal (h : e.isFatal = false) :
    (∃ row, e.row = .ok row) ∨
      ∃ d shown, e.row = .error (.coercion (.notInteger d shown)) := by
  unfold Event.isFatal at h
  split at h
  · next row hrow => exact .inl ⟨row, hrow⟩
  · next d shown hrow => exact .inr ⟨d, shown, hrow⟩
  · cases h

/-- Entries none of which is fatal are replayed to the end: the store then holds what they record,
and those that record nothing are counted. -/
theorem replay_of_harmless (hlive : w.tables.get? s.serial = some t)
    {entries : List (Option Event)} (h : ∀ e, some e ∈ entries → e.isFatal = false) :
    ∃ w', w.replay s entries = (w', droppedCount entries, none) ∧
      w.Puts s.serial { t with rows := t.rows.feed (recorded entries) } w' := by
  -- The warehouse changes with every row that is written; the store stays live throughout.
  induction entries generalizing w t with
  | nil => exact ⟨w, rfl, Puts.self hlive⟩
  | cons entry rest ih =>
    have hrest : ∀ e, some e ∈ rest → e.isFatal = false := fun e he => h e (.tail _ he)
    cases entry with
    | none =>
      obtain ⟨w', hw, hp⟩ := ih hlive hrest
      refine ⟨w', ?_, hp⟩
      rw [replay_none, hw]
      simp [droppedCount, recordedHalf]
    | some e =>
      rcases row_of_not_fatal (h e (.head _)) with ⟨row, hrow⟩ | ⟨d, shown, hrow⟩
      · obtain ⟨w₁, hstep, hp₁⟩ := replay_row hlive hrow rest
        obtain ⟨w', hw, hp⟩ := ih hp₁.at hrest
        refine ⟨w', ?_, ?_⟩
        · rw [hstep, hw]
          simp [droppedCount, recordedHalf, hrow, Except.toOption]
        · simpa [recorded, recordedHalf, hrow, Except.toOption, Table.feed] using hp₁.trans hp
      · obtain ⟨w', hw, hp⟩ := ih hlive hrest
        refine ⟨w', ?_, ?_⟩
        · rw [replay_notInteger hlive hrow, hw]
          simp [droppedCount, recordedHalf, hrow, Except.toOption]
        · simpa [recorded, recordedHalf, hrow, Except.toOption] using hp

/-- A fatal entry breaks off the replay. No other store is touched by then. -/
theorem replay_of_fatal (hlive : w.tables.get? s.serial = some t) {entries : List (Option Event)}
    (hmem : some e ∈ entries) (he : e.isFatal = true) :
    ∃ w' n err rows, w.replay s entries = (w', n, some err) ∧
      w.Puts s.serial { t with rows := rows } w' := by
  induction entries generalizing w t with
  | nil => cases hmem
  | cons entry rest ih =>
    cases entry with
    | none =>
      obtain ⟨w', n, err, rows, hw, hp⟩ := ih hlive (by simpa using hmem)
      refine ⟨w', n + 1, err, rows, ?_, hp⟩
      rw [replay_none, hw]
    | some a =>
      by_cases ha : a.isFatal = true
      · obtain ⟨err, hw⟩ := replay_fatal hlive ha rest
        exact ⟨w, 0, err, t.rows, hw, Puts.self hlive⟩
      · have hne : e ≠ a := fun hea => ha (hea ▸ he)
        have hrest : some e ∈ rest := by simpa [hne] using hmem
        rcases row_of_not_fatal (by simpa using ha) with ⟨row, hrow⟩ | ⟨d, shown, hrow⟩
        · obtain ⟨w₁, hstep, hp₁⟩ := replay_row hlive hrow rest
          obtain ⟨w', n, err, rows, hw, hp⟩ := ih hp₁.at hrest
          exact ⟨w', n, err, rows, hstep.trans hw, hp₁.trans hp⟩
        · obtain ⟨w', n, err, rows, hw, hp⟩ := ih hlive hrest
          refine ⟨w', n + 1, err, rows, ?_, hp⟩
          rw [replay_notInteger hlive hrow, hw]

end Replay

end Warehouse

end RequestWindows
