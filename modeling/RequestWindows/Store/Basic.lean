import RequestWindows.Store.Aggregate

/-! Window stores. A warehouse holds the tables of all stores; a store is found in it by its serial
number, and one that is not there any more has been removed. -/
namespace RequestWindows

/-- The database that a store lives in: its own one, or one that it shares. -/
inductive Database
  | own (serial : Nat)
  | shared (name : String)
deriving DecidableEq

/-- The table of a store, with the database and the window that it belongs to. -/
structure StoredTable where
  database : Database
  window : Int
  rows : Table
deriving DecidableEq

/-- All tables that have been created and not removed. -/
structure Warehouse where
  /-- The tables by the serial numbers of their stores. -/
  tables : KeyedList Nat StoredTable
  /-- The serial number of the next store. -/
  next : Nat
deriving DecidableEq

structure WindowStore where
  serial : Nat
  window : Int
  /-- How long a request is in flight before it expires. -/
  expiry : Int
deriving DecidableEq

/-- Why an operation on a store failed. -/
inductive StoreError
  | negativeExpiry (expiry : Int)
  /-- The window has a live store in the same database. -/
  | tableExists
  | selfRollover
  | removed (window : Int)
  | coercion (e : CoercionError)
  /-- An integer cannot be handed to a statement. -/
  | unbindable
  /-- An integer does not fit its column. -/
  | unfit
  /-- A time cannot be compared with a horizon that has only an unsigned form. -/
  | incomparable
  /-- A latency does not fit in 64 bits. -/
  | latencyOutOfRange
deriving DecidableEq

def tableName (window : Int) : String := "http_rq_" ++ toString window

/-- What is said of an error, where it has words of its own. -/
def StoreError.message? : StoreError → Option String
  | negativeExpiry n => some ("expiry_ms must be >= 0. Got: " ++ toString n)
  | selfRollover => some "cannot roll a window over into itself"
  | removed window => some ("window store " ++ tableName window ++ " has been removed")
  | coercion e => some e.message
  | tableExists | unbindable | unfit | incomparable | latencyOutOfRange => none

def HalfRow.make (columns : Columns) (time : Int) : Except StoreError HalfRow :=
  if columns.bindable && bindable time then
    if h : (columns.fits && fitsBits 64 time) = true then .ok ⟨columns, time, h⟩ else .error .unfit
  else .error .unbindable

/-- The time before which a request of this window has expired. -/
def WindowStore.horizon (s : WindowStore) : Int := s.window - s.expiry

namespace Warehouse

/-- A warehouse without tables. -/
def empty : Warehouse := ⟨∅, 0⟩

instance : Inhabited Warehouse := ⟨empty⟩

/-- Whether a database has a live table for a window. -/
def hasTable (w : Warehouse) (database : Database) (window : Int) : Bool :=
  w.tables.entries.any fun t => t.2.database = database && t.2.window = window

/-- Create the store of a window in a shared database, or in one of its own. -/
def create (w : Warehouse) (shared : Option String) (window expiry : Int) :
    Except StoreError (Warehouse × WindowStore) :=
  let database := (shared.map .shared).getD (.own w.next)
  if expiry < 0 then .error (.negativeExpiry expiry)
  else if w.hasTable database window then .error .tableExists
  else
    .ok (⟨w.tables.insert w.next ⟨database, window, .empty⟩, w.next + 1⟩, ⟨w.next, window, expiry⟩)

/-- The table of a store that has not been removed. -/
def table (w : Warehouse) (s : WindowStore) : Except StoreError StoredTable :=
  match w.tables.get? s.serial with
  | some t => .ok t
  | none => .error (.removed s.window)

def rows (w : Warehouse) (s : WindowStore) : Except StoreError Table :=
  (w.table s).map (·.rows)

/-- Change the rows of a store. -/
def modify (w : Warehouse) (s : WindowStore) (f : Table → Table) : Except StoreError Warehouse :=
  (w.table s).map fun t => { w with tables := w.tables.insert s.serial { t with rows := f t.rows } }

/-- Write one half of a request. Its dimensions are judged first, then the store, then the size of
its integers. -/
def put (w : Warehouse) (s : WindowStore) (half : Half) (id : String) (time : Int)
    (dimensions : List (String × Json)) : Except StoreError Warehouse := do
  let values ← (coerceDimensions dimensions).mapError .coercion
  let _ ← w.table s
  let row ← HalfRow.make (.ofList values) time
  w.modify s (·.write id half row)

def grouped (w : Warehouse) (s : WindowStore) : Except StoreError (List Request) :=
  (w.rows s).map (·.requests)

/-- The completed requests of a store. Their latencies all have to fit in 64 bits. -/
def latencies (w : Warehouse) (s : WindowStore) : Except StoreError (List CompletedRequest) := do
  let completed := (← w.rows s).completed
  if completed.all fun r => fitsBits 64 r.latency then return completed
  else throw .latencyOutOfRange

/-- The aggregates of a store's completed requests. -/
def aggregates (w : Warehouse) (s : WindowStore) : Except StoreError (List OperationAggregate) :=
  (w.latencies s).map aggregate

/-- The starts of a store's requests that are in flight. Every start that has no end is compared
with the horizon, and if there is none the horizon need not be comparable. -/
def inFlightRows (w : Warehouse) (s : WindowStore) :
    Except StoreError (List (String × HalfRow)) := do
  let rows ← w.rows s
  if ¬bindable s.horizon then throw .unbindable
  else if needsUnsigned s.horizon ∧ rows.pending ≠ [] then throw .incomparable
  else return rows.inFlight s.horizon

/-- The requests of a store that are in flight. -/
def inFlight (w : Warehouse) (s : WindowStore) : Except StoreError (List Request) :=
  (w.inFlightRows s).map fun starts => starts.map fun r => .started r.1 r.2

def halfRows (w : Warehouse) (s : WindowStore) :
    Except StoreError (List (String × Half × HalfRow)) :=
  (w.rows s).map (·.rows)

/-- The number of correlation ids in a store. -/
def size (w : Warehouse) (s : WindowStore) : Except StoreError Nat := (w.rows s).map (·.size)

/-- Carry the requests in flight over from another store: the answer is their number. Nothing is
written, not even to a removed store, if there are none. -/
def rollover (w : Warehouse) (target source : WindowStore) :
    Except StoreError (Warehouse × Nat) := do
  if target.serial = source.serial then throw .selfRollover
  let starts ← w.inFlightRows source
  -- Rows that are stored already fit every table, so only a missing target can refuse them.
  if starts = [] then return (w, 0)
  else return (← w.modify target (·.carry starts), starts.length)

/-- Remove a store. Removing it again does nothing. -/
def remove (w : Warehouse) (s : WindowStore) : Warehouse :=
  { w with tables := w.tables.erase s.serial }

/-- The names of the tables in a database, in ascending order. -/
def tableNames (w : Warehouse) (database : Database) : List String :=
  sortTexts ((w.tables.entries.filter fun t => t.2.database = database).map fun t =>
    tableName t.2.window)

end Warehouse

end RequestWindows
