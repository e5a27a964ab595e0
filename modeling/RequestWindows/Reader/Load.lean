import RequestWindows.Reader.Basic

/-! Loading a window. Its store is built from its log, after the requests in flight have been
carried over from the window before; so the windows before it that can matter are built first,
oldest first. -/
namespace RequestWindows

/-- The dimensions of an event as values to be judged. Events come from logs, where none is torn. -/
def Event.bindings (e : Event) : List (String × Json) :=
  e.dimensions.entries.map fun d => (d.1.lossy, d.2.toJson)

/-- Write the items of a log to a store: what the warehouse is then, how many items were dropped,
and the error that broke off the writing, if one did. -/
def Warehouse.replay (w : Warehouse) (store : WindowStore) :
    List (Option Event) → Warehouse × Nat × Option StoreError
  | [] => (w, 0, none)
  | none :: rest =>
    let (w, dropped, failure) := w.replay store rest
    (w, dropped + 1, failure)
  | some e :: rest =>
    match w.put store e.half e.correlationId e.emittedAt e.bindings with
    | .ok w => w.replay store rest
    | .error (.coercion (.notInteger _ _)) =>
      let (w, dropped, failure) := w.replay store rest
      (w, dropped + 1, failure)
    | .error e => (w, 0, some e)

namespace Correlation

/-- Write the items of a log to a store, and count the dropped ones once all is written. -/
def replay (s : Correlation) (store : WindowStore) (t : Transcript) :
    Correlation × Except ReaderError WindowStore :=
  let (warehouse, dropped, failure) := s.warehouse.replay store t.items
  let s := { s with warehouse }
  match failure with
  | some e => (s, .error (.store e))
  | none =>
    -- Items dropped before a failure are not counted.
    if t.whole then
      ({ s with counters := s.counters.add .malformedEvents dropped }, .ok store)
    else (s, .error (.log .undecodable))

/-- Write the log of a window to its store, if the window has one. -/
def fill (s : Correlation) (log : EventLog) (store : WindowStore) :
    Correlation × Except ReaderError WindowStore :=
  match log.isSealed store.window with
  | .error e => (s, .error (.log e))
  | .ok false => (s, .ok store)
  | .ok true =>
    match log.read store.window with
    | .error e => (s, .error (.log e))
    | .ok t => s.replay store t

/-- Carry the requests in flight over from the store of the window before, if there is one. -/
def carryOver (s : Correlation) (store : WindowStore) (previous : Option WindowStore) :
    Except StoreError Correlation :=
  match previous with
  | none => .ok s
  | some p => (s.warehouse.rollover store p).map fun r => { s with warehouse := r.1 }

/-- Build the store of a window. A failure leaves what had been written before it. -/
def build (s : Correlation) (log : EventLog) (key : Int) (previous : Option WindowStore) :
    Correlation × Except ReaderError WindowStore :=
  match s.warehouse.create s.reader.shared key s.reader.expiry with
  | .error e => (s, .error (.store e))
  | .ok (warehouse, store) =>
    let s := { s with warehouse }
    match s.carryOver store previous with
    | .error e => (s, .error (.store e))
    | .ok s => s.fill log store

/-- Build the stores of several windows, each carried over from the one before, and keep them. -/
def buildChain (s : Correlation) (log : EventLog) (previous : Option WindowStore) :
    List Int → Correlation × Except ReaderError Unit
  | [] => (s, .ok ())
  | key :: rest =>
    match s.build log key previous with
    | (s, .error e) => (s, .error e)
    | (s, .ok store) => (s.keep key store).buildChain log (some store) rest

/-- The windows to build for a sealed window. -/
def chain (s : Correlation) (log : EventLog) (key : Int) : Except LogError (List Int) :=
  log.sealedKeys.map fun sealed => s.reader.chain key (sealed.head?.getD key)

/-- Build the store of a sealed window that is not kept. -/
def loadSealed (s : Correlation) (log : EventLog) (key : Int) :
    Correlation × Except ReaderError WindowStore :=
  match s.chain log key with
  | .error e => (s, .error (.log e))
  | .ok keys =>
    -- The chain ends where a store is kept, if it is not cut off before.
    let before := keys.head?.getD key - s.reader.interval.millis
    match s.buildChain log (s.reader.cache.get? before) keys with
    | (s, .error e) => (s, .error e)
    | (s, .ok ()) =>
      match s.reader.cache.get? key with
      | some store => (s, .ok store)
      | none => (s, .error (.lost key))

/-- The store of a sealed window. -/
def load (s : Correlation) (log : EventLog) (key : Int) :
    Correlation × Except ReaderError WindowStore :=
  if ¬s.reader.interval.Aligned key then
    (s, .error (.misaligned key s.reader.interval.millis))
  else
    match s.reader.cache.get? key with
    | some store => (s.touch key store, .ok store)
    | none =>
      match log.isSealed key with
      | .error e => (s, .error (.log e))
      | .ok false => (s, .error (.log (.notSealed key)))
      | .ok true => s.loadSealed log key

def query {α : Type} (s : Correlation) (log : EventLog) (key : Int)
    (ask : Warehouse → WindowStore → Except StoreError α) : Correlation × Except ReaderError α :=
  match s.load log key with
  | (s, .error e) => (s, .error e)
  | (s, .ok store) => (s, (ask s.warehouse store).mapError .store)

/-- The requests of a sealed window. -/
def groupedRows (s : Correlation) (log : EventLog) (key : Int) :=
  s.query log key Warehouse.grouped

/-- The completed requests of a sealed window. -/
def latencyRows (s : Correlation) (log : EventLog) (key : Int) :=
  s.query log key Warehouse.latencies

/-- The aggregates of a sealed window. -/
def aggregateRows (s : Correlation) (log : EventLog) (key : Int) :=
  s.query log key Warehouse.aggregates

/-- The requests in flight at the end of a sealed window. -/
def inFlightRows (s : Correlation) (log : EventLog) (key : Int) :=
  s.query log key Warehouse.inFlight

end Correlation

/-- The newest sealed window. -/
def EventLog.latestSealed (log : EventLog) : Except LogError (Option Int) :=
  log.sealedKeys.map List.getLast?

end RequestWindows
