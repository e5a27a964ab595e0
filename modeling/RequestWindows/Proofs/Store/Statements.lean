import RequestWindows.Proofs.Reader.BadEntry
import RequestWindows.Proofs.Store.Rollovers

/-! Every row is inserted by a statement of its own, which can be refused after others have been
executed. Yet rows that are stored fit every table, so of a rollover only the first can be
refused. -/
namespace RequestWindows

/-- One half of a request as it is handed to a statement. -/
structure Insertion where
  id : String
  half : Half
  columns : Columns
  time : Int

/-- A stored row as it is handed to a statement again. -/
def Insertion.again (half : Half) (r : String × HalfRow) : Insertion :=
  ⟨r.1, half, r.2.columns, r.2.time⟩

/-- The start of a request, if it has one, as it is handed to a statement. -/
def Request.insertion? (r : Request) : Option Insertion :=
  r.startTime.map (⟨r.correlationId, .start, r.columns, ·⟩)

theorem HalfRow.make_again (row : HalfRow) : HalfRow.make row.columns row.time = .ok row := by
  obtain ⟨row', hmade⟩ := HalfRow.make_of_fits row.fits
  obtain ⟨hcolumns, htime⟩ := HalfRow.make_eq_ok hmade
  rw [hmade]
  obtain ⟨_, _, _⟩ := row
  obtain ⟨_, _, _⟩ := row'
  cases hcolumns
  cases htime
  rfl

theorem insertions_started (starts : List (String × HalfRow)) :
    (starts.map fun r => Request.started r.1 r.2).filterMap Request.insertion? =
      starts.map (Insertion.again .start) := by
  rw [List.filterMap_map]
  exact congrFun List.filterMap_eq_map' starts

theorem assign_assign {κ α : Type} [DecidableEq κ] (k : κ) (a b : α) (l : List (κ × α)) :
    assign k b (assign k a l) = assign k b l := by
  induction l with
  | nil => exact if_pos rfl
  | cons e rest ih =>
    by_cases hk : e.1 = k
    · simp [assign, hk]
    · simp [assign, hk, ih]

/-- Of two values that a key is bound to one after the other, the second counts. -/
theorem KeyedList.insert_insert {κ α : Type} [DecidableEq κ] (m : KeyedList κ α) (k : κ) (a b : α) :
    (m.insert k a).insert k b = m.insert k b :=
  KeyedList.ext (assign_assign k a b m.entries)

namespace Warehouse

/-- Execute one statement: the store is looked up first, then the integers are judged. -/
def insertRow (w : Warehouse) (s : WindowStore) (i : Insertion) : Except StoreError Warehouse := do
  let _ ← w.table s
  let row ← HalfRow.make i.columns i.time
  w.modify s (·.write i.id i.half row)

/-- Execute statements until one of them is refused: what is left, and why it was refused. -/
def insertEach (w : Warehouse) (s : WindowStore) :
    List Insertion → Warehouse × Option StoreError
  | [] => (w, none)
  | i :: rest =>
    match w.insertRow s i with
    | .ok w' => w'.insertEach s rest
    | .error e => (w, some e)

/-- What an action leaves that does all of what it should or nothing, and why it failed if it
has. -/
def allOrNothing (w : Warehouse) : Except StoreError Warehouse → Warehouse × Option StoreError
  | .ok w' => (w', none)
  | .error e => (w, some e)

/-- Do something to the stores, statement by statement: what it leaves, and why it failed if it
has. -/
def execute (w : Warehouse) : StoreAction → Warehouse × Option StoreError
  | .create shared window expiry => w.allOrNothing ((w.create shared window expiry).map Prod.fst)
  | .put s half id time dimensions =>
    match coerceDimensions dimensions with
    | .ok values => w.insertEach s [⟨id, half, .ofList values, time⟩]
    | .error e => (w, some (.coercion e))
  | .rollover target source =>
    if target.serial = source.serial then (w, some .selfRollover)
    else
      match w.inFlight source with
      | .ok requests => w.insertEach target (requests.filterMap Request.insertion?)
      | .error e => (w, some e)
  | .remove s => (w.remove s, none)

section Statements

variable {w : Warehouse} {s target source : WindowStore} {t : StoredTable}

theorem insertRow_again (ht : w.tables.get? s.serial = some t) (half : Half)
    (r : String × HalfRow) :
    w.insertRow s (.again half r) =
      .ok ⟨w.tables.insert s.serial { t with rows := t.rows.write r.1 half r.2 }, w.next⟩ := by
  unfold insertRow modify
  rw [table_eq_ok.mpr ht]
  change (HalfRow.make r.2.columns r.2.time).bind _ = _
  rw [HalfRow.make_again]
  rfl

/-- Statements for rows that are stored already all succeed on a live store. -/
theorem insertEach_again (ht : w.tables.get? s.serial = some t) (starts : List (String × HalfRow)) :
    w.insertEach s (starts.map (.again .start)) =
      (⟨w.tables.insert s.serial { t with rows := t.rows.carry starts }, w.next⟩, none) := by
  -- The store stays live, with the rows that have been inserted by then.
  induction starts generalizing w t with
  | nil =>
    have hsame : w.tables.insert s.serial { t with rows := t.rows.carry [] } = w.tables :=
      KeyedList.insert_of_get? ht
    rw [hsame]
    rfl
  | cons r rest ih =>
    let t' : StoredTable := { t with rows := t.rows.write r.1 .start r.2 }
    have hlive : (w.tables.insert s.serial t').get? s.serial = some t' := by
      rw [KeyedList.get?_insert, if_pos rfl]
    rw [List.map_cons, insertEach, insertRow_again ht]
    change insertEach ⟨w.tables.insert s.serial t', w.next⟩ s (rest.map (.again .start)) = _
    rw [ih hlive, KeyedList.insert_insert]
    rfl

theorem insertEach_removed (hs : w.tables.get? s.serial = none) (i : Insertion)
    (rest : List Insertion) : w.insertEach s (i :: rest) = (w, some (.removed s.window)) := by
  unfold insertEach insertRow table
  rw [hs]
  rfl

theorem execute_put (w : Warehouse) (s : WindowStore) (half : Half) (id : String) (time : Int)
    (dimensions : List (String × Json)) :
    w.execute (.put s half id time dimensions) =
      w.allOrNothing (w.put s half id time dimensions) := by
  rw [execute]
  unfold put
  cases coerceDimensions dimensions with
  | error e => rfl
  | ok values =>
    change w.insertEach s _ = w.allOrNothing (w.insertRow s ⟨id, half, .ofList values, time⟩)
    rw [insertEach]
    cases w.insertRow s ⟨id, half, .ofList values, time⟩ <;> rfl

theorem execute_rollover (w : Warehouse) (target source : WindowStore) :
    w.execute (.rollover target source) =
      w.allOrNothing ((w.rollover target source).map Prod.fst) := by
  rw [execute]
  by_cases hself : target.serial = source.serial
  · unfold rollover
    rw [if_pos hself, if_pos hself]
    rfl
  rw [if_neg hself]
  cases hstarts : w.inFlightRows source with
  | error e =>
    unfold inFlight rollover
    rw [if_neg hself, hstarts]
    rfl
  | ok starts =>
    unfold inFlight
    rw [hstarts]
    change w.insertEach target ((starts.map _).filterMap Request.insertion?) = _
    rw [insertions_started]
    cases ht : w.tables.get? target.serial with
    | some t =>
      rw [insertEach_again ht, rollover_eq hself ht hstarts]
      rfl
    | none =>
      -- Only here a statement is refused, and it is the first one.
      unfold rollover modify table
      rw [if_neg hself, hstarts, ht]
      cases starts with
      | nil => rfl
      | cons r rest => exact insertEach_removed ht _ _

/-- Statement by statement a write leaves what it leaves as a whole. -/
theorem execute_eq_attempt (w : Warehouse) (a : StoreAction) :
    w.execute a = w.allOrNothing (w.attempt a) := by
  cases a with
  | create shared window expiry => rfl
  | put s half id time dimensions => exact execute_put w s half id time dimensions
  | rollover target source => exact execute_rollover w target source
  | remove s => rfl

/-- A write that fails leaves all stores as they were, also if it was to insert many rows. -/
theorem failed_write_inserts_nothing {w : Warehouse} {a : StoreAction} {e : StoreError}
    (h : (w.execute a).2 = some e) :
    w.attempt a = .error e ∧ (w.execute a).1 = w ∧ ∀ s, w.SameViews (w.execute a).1 s := by
  have hexecute := execute_eq_attempt w a
  cases hattempt : w.attempt a with
  | ok w' =>
    rw [hexecute, hattempt] at h
    cases h
  | error e' =>
    rw [hattempt] at hexecute
    rw [hexecute] at h ⊢
    cases h
    exact ⟨rfl, rfl, fun s => sameViews_of_rows rfl⟩

end Statements

section Example

/-- The three stores with the second one removed. -/
def twoStoresLeft : List StoreAction := threeStores ++ [.remove (storeAt 1)]

/-- Two requests are in flight, but the store that they are to be carried over to has been
removed. -/
theorem rollover_to_removed_store :
    let w := empty.perform twoStoresLeft
    let a : StoreAction := .rollover (storeAt 1) (storeAt 0)
    (w.execute a).2 = some (.removed 10) ∧
      (∃ r q, w.inFlight (storeAt 0) = .ok [r, q]) ∧ (w.execute a).1 = w := by
  intro w a
  have hfailed : (w.execute a).2 = some (.removed 10) := by decide +kernel
  refine ⟨hfailed, ⟨⟨"a", .empty, some (-12), none⟩,
    ⟨"b", ⟨none, none, none, none, some 7⟩, some 2, none⟩, by decide +kernel⟩, ?_⟩
  exact (failed_write_inserts_nothing hfailed).2.1

end Example

end Warehouse

end RequestWindows
