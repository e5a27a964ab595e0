import RequestWindows.Proofs.Store.History

namespace RequestWindows

namespace Table

theorem mem_rows {t : Table} {id : String} {half : Half} {row : HalfRow} :
    (id, half, row) ∈ t.rows ↔ t.get? id half = some row := by
  unfold rows
  rw [List.mem_flatMap]
  constructor
  · rintro ⟨⟨j, h⟩, hm, hr⟩
    have hf := mem_entries_iff.mp hm
    rcases List.mem_append.mp hr with hr | hr <;>
    · obtain ⟨r, hget, he⟩ := Option.map_eq_some_iff.mp (Option.mem_toList.mp hr)
      cases he
      rw [get?_of_find? hf]
      exact hget
  · intro hg
    obtain ⟨h, hf, hget⟩ := find?_of_get? hg
    refine ⟨(id, h), mem_entries_iff.mpr hf, List.mem_append.mpr ?_⟩
    cases half with
    | start =>
      change h.start = some row at hget
      exact .inr (by simp [hget])
    | finish =>
      change h.finish = some row at hget
      exact .inl (by simp [hget])

/-- A half of a request has one row at most. -/
theorem nodup_rows (t : Table) : (t.rows.map fun r => (r.1, r.2.1)).Nodup := by
  rw [List.nodup_iff_pairwise_ne, List.pairwise_map, rows, List.pairwise_flatMap]
  constructor
  · rintro ⟨id, h⟩ _
    cases h.finish <;> cases h.start <;> simp
  · refine t.ascending.imp fun {a b} hab r hr q hq he => ?_
    have hid : ∀ {e : String × Halves} {r : String × Half × HalfRow},
        r ∈ (e.2.finish.map (e.1, Half.finish, ·)).toList ++
          (e.2.start.map (e.1, Half.start, ·)).toList → r.1 = e.1 := by
      intro e r hr
      rcases List.mem_append.mp hr with hr | hr <;>
      · obtain ⟨_, _, he⟩ := Option.map_eq_some_iff.mp (Option.mem_toList.mp hr)
        rw [← he]
    have hsame : a.1 = b.1 := by rw [← hid hr, ← hid hq, congrArg Prod.fst he]
    rw [hsame] at hab
    exact String.lt_irrefl _ hab

theorem ascending_requests (t : Table) :
    t.requests.Pairwise fun a b =>
      Text.encodeUtf8 a.correlationId.toList < Text.encodeUtf8 b.correlationId.toList := by
  unfold requests
  rw [List.pairwise_map]
  exact t.ascending.imp Text.lt_iff_encodeUtf8_lt.mp

theorem exists_half_of_mem_requests {t : Table} {r : Request} (h : r ∈ t.requests) :
    ∃ half row, t.get? r.correlationId half = some row := by
  obtain ⟨⟨id, halves⟩, hm, rfl⟩ := List.mem_map.mp h
  have hpresent := halves.present
  change ∃ half row, t.get? id half = some row
  simp only [get?_of_find? (mem_entries_iff.mp hm)]
  cases hs : halves.start with
  | some row => exact ⟨.start, row, hs⟩
  | none =>
    rw [hs, Option.isSome_none, Bool.false_or, Option.isSome_iff_exists] at hpresent
    obtain ⟨row, hf⟩ := hpresent
    exact ⟨.finish, row, hf⟩

theorem endTime_of_mem_requests {t : Table} {r : Request} (h : r ∈ t.requests) :
    r.endTime = (t.get? r.correlationId .finish).map (·.time) := by
  obtain ⟨⟨id, halves⟩, hm, rfl⟩ := List.mem_map.mp h
  change halves.finish.map HalfRow.time = (t.get? id .finish).map (·.time)
  rw [get?_of_find? (mem_entries_iff.mp hm)]
  rfl

/-- In each column a request has the greatest of the values that its halves have there. -/
theorem columns_of_mem_requests {t : Table} {r : Request} (h : r ∈ t.requests) (d : Dimension) :
    IsGreatestOf
      ([Half.start, .finish].filterMap fun half =>
        (t.get? r.correlationId half).bind (·.columns.value? d))
      (r.columns.value? d) := by
  obtain ⟨⟨id, halves⟩, hm, rfl⟩ := List.mem_map.mp h
  change IsGreatestOf ([Half.start, .finish].filterMap fun half =>
    (t.get? id half).bind (·.columns.value? d)) (halves.columns.value? d)
  simp only [get?_of_find? (mem_entries_iff.mp hm)]
  have hvalue : ∀ row : Option HalfRow, row.bind (·.columns.value? d) =
      ((row.map HalfRow.columns).getD .empty).value? d := by
    intro row
    cases row with
    | none => exact (Columns.value?_empty d).symm
    | some row => rfl
  have hmerge := isGreatestOf_merge ((halves.start.map HalfRow.columns).getD .empty)
    ((halves.finish.map HalfRow.columns).getD .empty) d
  rw [← hvalue, ← hvalue] at hmerge
  exact hmerge

end Table

/-- Rows that are the last ones written, one for each half of a request that was written at all. -/
structure OneRowEach (writes rows : List (String × Half × HalfRow)) : Prop where
  nodup : (rows.map fun r => (r.1, r.2.1)).Nodup
  mem_iff : ∀ id half row, (id, half, row) ∈ rows ↔ lastRow writes id half = some row

/-- Requests that are the last rows written, one request for each id, in the order of the bytes that
encode the ids. Each has the times of its halves and the greatest of their values. -/
structure OneRequestEach (writes : List (String × Half × HalfRow)) (requests : List Request) :
    Prop where
  ascending : requests.Pairwise fun a b =>
    Text.encodeUtf8 a.correlationId.toList < Text.encodeUtf8 b.correlationId.toList
  mem_ids : ∀ id, id ∈ requests.map (·.correlationId) ↔ ∃ half row, (id, half, row) ∈ writes
  startTime : ∀ r ∈ requests,
    r.startTime = (lastRow writes r.correlationId .start).map (·.time)
  endTime : ∀ r ∈ requests,
    r.endTime = (lastRow writes r.correlationId .finish).map (·.time)
  columns : ∀ r ∈ requests, ∀ d,
    IsGreatestOf
      ([Half.start, .finish].filterMap fun half =>
        (lastRow writes r.correlationId half).bind (·.columns.value? d))
      (r.columns.value? d)

/-- The same writes in another order, but not for one half of one request. -/
def Reorders (writes writes' : List (String × Half × HalfRow)) : Prop :=
  ∀ id half, writes.filter (fun r => r.1 = id ∧ r.2.1 = half) =
    writes'.filter fun r => r.1 = id ∧ r.2.1 = half

variable {writes writes' : List (String × Half × HalfRow)}

theorem get?_feed_empty (writes : List (String × Half × HalfRow)) (id : String) (half : Half) :
    (Table.empty.feed writes).get? id half = lastRow writes id half := by
  rw [Table.get?_feed, Table.get?_empty, Option.or_none]

theorem lastRow_eq_filter (writes : List (String × Half × HalfRow)) (id : String) (half : Half) :
    lastRow writes id half =
      ((writes.filter fun r => r.1 = id ∧ r.2.1 = half).map (·.2.2)).getLast? := by
  unfold lastRow
  congr 1
  rw [← List.filterMap_eq_map, List.filterMap_filter]
  congr 1
  funext r
  by_cases h : r.1 = id ∧ r.2.1 = half <;> simp [h]

theorem Reorders.feed_eq (h : Reorders writes writes') :
    Table.empty.feed writes = Table.empty.feed writes' := by
  ext1 id half
  rw [get?_feed_empty, get?_feed_empty, lastRow_eq_filter, lastRow_eq_filter, h id half]

/-- Writes that follow each other can be exchanged if they are not for one half of one request. -/
theorem Reorders.swap {r q : String × Half × HalfRow} (h : ¬(r.1 = q.1 ∧ r.2.1 = q.2.1))
    (before after : List (String × Half × HalfRow)) :
    Reorders (before ++ r :: q :: after) (before ++ q :: r :: after) := by
  intro id half
  simp only [List.filter_append, List.filter_cons]
  by_cases hr : r.1 = id ∧ r.2.1 = half
  · have hq : ¬(q.1 = id ∧ q.2.1 = half) := fun hq => h ⟨hr.1.trans hq.1.symm, hr.2.trans hq.2.symm⟩
    simp only [decide_eq_true hr, decide_eq_false hq, Bool.false_eq_true, if_true, if_false]
  · simp only [decide_eq_false hr, Bool.false_eq_true, if_false]

theorem oneRowEach_feed (writes : List (String × Half × HalfRow)) :
    OneRowEach writes (Table.empty.feed writes).rows where
  nodup := Table.nodup_rows _
  mem_iff id half row := by rw [Table.mem_rows, get?_feed_empty]

theorem exists_written_iff {id : String} :
    (∃ half row, (id, half, row) ∈ writes) ↔ ∃ half row, lastRow writes id half = some row := by
  constructor
  · rintro ⟨half, row, hm⟩
    cases h : lastRow writes id half with
    | none => exact absurd hm (lastRow_eq_none_iff.mp h row)
    | some last => exact ⟨half, last, h⟩
  · rintro ⟨half, row, h⟩
    exact ⟨half, row, mem_of_lastRow h⟩

theorem oneRequestEach_feed (writes : List (String × Half × HalfRow)) :
    OneRequestEach writes (Table.empty.feed writes).requests where
  ascending := Table.ascending_requests _
  mem_ids id := by
    rw [exists_written_iff]
    simp only [← get?_feed_empty]
    constructor
    · intro hid
      obtain ⟨r, hr, rfl⟩ := List.mem_map.mp hid
      exact Table.exists_half_of_mem_requests hr
    · rintro ⟨half, row, hget⟩
      obtain ⟨r, hr, rfl⟩ := Table.exists_request_of_get? hget
      exact List.mem_map_of_mem hr
  startTime r hr := by rw [Table.startTime_of_mem_requests hr, get?_feed_empty]
  endTime r hr := by rw [Table.endTime_of_mem_requests hr, get?_feed_empty]
  columns r hr d := by
    have h := Table.columns_of_mem_requests hr d
    simp only [get?_feed_empty] at h
    exact h

namespace Warehouse

variable {w w' : Warehouse} {s s' : WindowStore}

theorem Lives.rows_eq (h : w.Lives s writes) : w.rows s = .ok (Table.empty.feed writes) := by
  obtain ⟨_, t, ht, hrows⟩ := h.rows
  exact rows_eq_ok.mpr ⟨t, ht, hrows⟩

theorem Lives.put_succeeds_iff (h : w.Lives s writes) (half : Half) (id : String) (time : Int)
    (dimensions : List (String × Json)) :
    (∃ w', w.put s half id time dimensions = .ok w') ↔ ∃ row, rowOf time dimensions = .ok row := by
  obtain ⟨_, t, ht, _⟩ := h.rows
  constructor
  · rintro ⟨w', hput⟩
    rw [put_of_live ht] at hput
    cases hrow : rowOf time dimensions with
    | ok row => exact ⟨row, rfl⟩
    | error e =>
      rw [hrow] at hput
      cases hput
  · rintro ⟨row, hrow⟩
    obtain ⟨w', hput, _⟩ := put_of_row ht half id hrow
    exact ⟨w', hput⟩

theorem Lives.rollover_succeeds_iff (h : w.Lives s writes) (source : WindowStore) :
    (∃ r, w.rollover s source = .ok r) ↔
      s.serial ≠ source.serial ∧ ∃ starts, w.inFlightRows source = .ok starts := by
  obtain ⟨_, t, ht, _⟩ := h.rows
  constructor
  · rintro ⟨r, hr⟩
    obtain ⟨hne, starts, hstarts, _⟩ := starts_of_rollover hr
    exact ⟨hne, starts, hstarts⟩
  · rintro ⟨hne, starts, hstarts⟩
    obtain ⟨w', m, hroll, _⟩ := rollover_of_starts hne ht hstarts
    exact ⟨_, hroll⟩

section Example

/-- The first store of an empty warehouse. -/
def firstStore : WindowStore := ⟨0, 0, 100⟩

/-- A warehouse in which the first store has been created. -/
def withFirstStore : Warehouse := empty.act (.create none 0 100)

/-- The start of `b` with an operation. -/
def namedStart : StoreAction := .put firstStore .start "b" 5 [("operation", .str "search")]

/-- The start of `b` without an operation. -/
def bareStart : StoreAction := .put firstStore .start "b" 7 []

/-- The end of `a`. -/
def otherFinish : StoreAction := .put firstStore .finish "a" 9 [("response_code", .int 200)]

theorem lives_withFirstStore {actions : List StoreAction}
    (h : ∀ a ∈ actions, ¬a.Removes firstStore.serial) :
    (withFirstStore.perform actions).Lives firstStore (withFirstStore.writtenIn 0 actions) := by
  have hcreate : (empty.perform []).create none 0 100 = .ok (withFirstStore, firstStore) := by
    decide +kernel
  exact (Lives.created hcreate).perform h

end Example

end Warehouse

end RequestWindows
