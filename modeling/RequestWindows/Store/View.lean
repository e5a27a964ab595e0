import RequestWindows.Store.Table

namespace RequestWindows

/-- The greater of two values, of which either may be missing. -/
def greater? {α : Type} [LT α] [DecidableLT α] : Option α → Option α → Option α
  | some a, some b => some (if a < b then b else a)
  | some a, none => some a
  | none, b => b

/-- The union of two rows of dimensions. -/
def Columns.merge (c d : Columns) : Columns :=
  ⟨greater? c.operation d.operation, greater? c.indices d.indices,
    greater? c.responseCode d.responseCode, greater? c.exception d.exception,
    greater? c.itemCount d.itemCount⟩

/-- A request: the union of its halves. -/
structure Request where
  correlationId : String
  columns : Columns
  startTime : Option Int
  endTime : Option Int
deriving DecidableEq

/-- A request of which both halves are there. -/
structure CompletedRequest where
  correlationId : String
  columns : Columns
  startTime : Int
  endTime : Int
deriving DecidableEq

def CompletedRequest.latency (r : CompletedRequest) : Int := r.endTime - r.startTime

/-- The union of the dimensions of both halves. -/
def Halves.columns (h : Halves) : Columns :=
  ((h.start.map HalfRow.columns).getD .empty).merge ((h.finish.map HalfRow.columns).getD .empty)

/-- The request that two halves make. -/
def Halves.request (id : String) (h : Halves) : Request :=
  ⟨id, h.columns, h.start.map HalfRow.time, h.finish.map HalfRow.time⟩

/-- The request that two halves make if both are there. -/
def Halves.completed? (id : String) (h : Halves) : Option CompletedRequest :=
  match h.start, h.finish with
  | some s, some f => some ⟨id, h.columns, s.time, f.time⟩
  | _, _ => none

/-- The start of a request that has not ended. -/
def Halves.pending? (h : Halves) : Option HalfRow :=
  match h.start, h.finish with
  | some s, none => some s
  | _, _ => none

/-- The start of a request that has not ended and began no earlier than `horizon`. -/
def Halves.inFlight? (horizon : Int) (h : Halves) : Option HalfRow :=
  h.pending?.filter fun s => horizon ≤ s.time

namespace Table

/-- All requests, in ascending order of their ids. -/
def requests (t : Table) : List Request := t.entries.map fun e => e.2.request e.1

/-- The requests of which both halves are there. -/
def completed (t : Table) : List CompletedRequest := t.entries.filterMap fun e => e.2.completed? e.1

/-- The starts of the requests that have not ended. -/
def pending (t : Table) : List (String × HalfRow) :=
  t.entries.filterMap fun e => e.2.pending?.map (e.1, ·)

/-- The starts of the requests that have not ended and began no earlier than `horizon`. -/
def inFlight (t : Table) (horizon : Int) : List (String × HalfRow) :=
  t.entries.filterMap fun e => (e.2.inFlight? horizon).map (e.1, ·)

/-- All rows as they are stored; of one request the end comes before the start. -/
def rows (t : Table) : List (String × Half × HalfRow) :=
  t.entries.flatMap fun e =>
    (e.2.finish.map (e.1, Half.finish, ·)).toList ++ (e.2.start.map (e.1, Half.start, ·)).toList

/-- Write rows as starts. -/
def carry (t : Table) (starts : List (String × HalfRow)) : Table :=
  starts.foldl (fun t s => t.write s.1 .start s.2) t

end Table

/-- A request that has started and not ended. -/
def Request.started (id : String) (row : HalfRow) : Request :=
  ⟨id, row.columns, some row.time, none⟩

end RequestWindows
