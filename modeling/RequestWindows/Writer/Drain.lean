import RequestWindows.EventLog.Basic
import RequestWindows.EventQueue
import RequestWindows.Writer.Basic

/-! Draining. A drain routes each queued event by its own time to the log of the reference window
or of the next one, seals the logs that the reference window has left behind and deletes those
too old. -/
namespace RequestWindows

/-- The writing side of a pipeline. -/
structure Ingestion where
  queue : EventQueue
  log : EventLog
  writer : Writer
  counters : Counters
deriving DecidableEq

structure DrainReport where
  referenceKey : Int
  drained : Nat
  writtenCurrent : Nat
  writtenNext : Nat
  stale : Nat
  sealed : List Int
  deleted : List Int
deriving DecidableEq

/-- Why a cleanup is refused. -/
inductive CleanupError
  /-- It would have to go through more windows than can be counted. -/
  | uncountable
  /-- It would have to go through more windows than can be listed. -/
  | unlistable
deriving DecidableEq

/-- Why a cleanup of this many windows is refused, if it is. -/
def CleanupError.ofCount? (limit : ListLimit) (windows : Nat) : Option CleanupError :=
  if countLimit ≤ windows then some .uncountable
  else if limit.windows ≤ windows then some .unlistable
  else none

/-- Why a drain broke off. -/
inductive DrainError
  | log (e : LogError)
  | cleanup (e : CleanupError)
deriving DecidableEq

namespace Ingestion

def count (s : Ingestion) (c : Counter) (n : Nat) : Ingestion :=
  { s with counters := s.counters.add c n }

/-- Offer an event to the queue. -/
def put (s : Ingestion) (o : Offer) : Ingestion × Bool :=
  let (queue, counters, taken) := s.queue.put s.counters o
  ({ s with queue, counters }, taken)

/-- Turn writing on or off. -/
def setEnabled (s : Ingestion) (enabled : Bool) : Ingestion :=
  { s with writer := { s.writer with enabled } }

/-- Change the set of windows that may have an open log. -/
def mapOpenKeys (s : Ingestion) (f : KeySet → KeySet) : Ingestion :=
  { s with writer := { s.writer with openKeys := f s.writer.openKeys } }

/-- Append a batch to the open log of a window: the answer is the number of events written. A
failure of the file system is counted, any other is passed on. -/
def appendBatch (s : Ingestion) (key : Int) (events : List Event) :
    Ingestion × Except LogError Nat :=
  if events = [] then (s, .ok 0)
  else
    -- The window counts as open before the append, so that a partial one is sealed too.
    let s := s.mapOpenKeys (·.insert key)
    let (log, outcome) := s.log.append key events
    let s := { s with log }
    match outcome with
    | .ok () => (s.count .eventsWritten events.length, .ok events.length)
    | .error e => if e.isSystem then (s.count .writeErrors 1, .ok 0) else (s, .error e)

/-- Seal the log of one window: the answer says whether it had an open one. A window that is sealed
already is no longer tried; after any other failure the next rotation tries again. -/
def sealOpen (s : Ingestion) (key : Int) : Ingestion × Bool :=
  match s.log.sealWindow key with
  | .error (.alreadySealed _) => ((s.count .sealErrors 1).mapOpenKeys (·.erase key), false)
  | .error _ => (s.count .sealErrors 1, false)
  | .ok (log, renamed) =>
    let s := { s with log }.mapOpenKeys (·.erase key)
    (if renamed then s.count .windowsSealed 1 else s, renamed)

/-- Seal the logs of several windows one after another: the answer lists those that were sealed. -/
def sealAll (s : Ingestion) : List Int → Ingestion × List Int
  | [] => (s, [])
  | key :: rest =>
    let (s, renamed) := s.sealOpen key
    let (s, more) := s.sealAll rest
    (s, if renamed then key :: more else more)

/-- Seal every log before the reference window, if that has changed since the last drain. -/
def rotate (s : Ingestion) (reference : Int) : Ingestion × List Int :=
  if s.writer.lastReference = none ∨ s.writer.lastReference = some reference then (s, [])
  else s.sealAll (s.writer.openKeys.filter (· < reference)).toList

def least? : List Int → Option Int
  | [] => none
  | k :: rest => some (rest.foldl min k)

/-- Delete the logs of the windows with the given keys, which end at `horizon`: the answer lists the
windows whose logs were deleted. After a failure the horizon moves only to the first window that
failed, so that the next cleanup tries again. -/
def expire (s : Ingestion) (keys : List Int) (horizon : Int) : Ingestion × List Int :=
  let (log, deleted, failed) := s.log.delete keys
  let s := { s with log }.count .windowsDeleted deleted.length
  let s := s.count .deleteErrors failed.length
  -- A window whose log could not be deleted may still have an open one.
  let s := s.mapOpenKeys (·.filter fun k => k ∉ keys ∨ k ∈ failed)
  let reached := (least? failed).getD horizon
  ({ s with writer := { s.writer with horizon := some reached } }, deleted)

/-- Delete the logs between the last horizon and the present one, if it has moved far enough: the
answer lists the windows whose logs were deleted. A cleanup that is refused changes nothing. -/
def cleanup (s : Ingestion) (now : Int) : Ingestion × Except CleanupError (List Int) :=
  match s.writer.horizon with
  | none => (s, .ok [])
  | some last =>
    let horizon := s.writer.retentionHorizon now
    let start := s.writer.interval.key last
    if horizon - last ≤ s.writer.settings.cleanupPeriod then (s, .ok [])
    else
      match CleanupError.ofCount? s.writer.settings.listLimit
          (s.writer.interval.countBetween start horizon) with
      | some e => (s, .error e)
      | none =>
        let (s, deleted) := s.expire (s.writer.interval.keysBetween start horizon) horizon
        (s, .ok deleted)

/-- Append the batches of two windows one after the other: the answer is the numbers of events
written. A first append that fails is the last one. -/
def appendBoth (s : Ingestion) (first second : Int × List Event) :
    Ingestion × Except LogError (Nat × Nat) :=
  match s.appendBatch first.1 first.2 with
  | (s, .error e) => (s, .error e)
  | (s, .ok n) =>
    let (s, outcome) := s.appendBatch second.1 second.2
    (s, outcome.map (n, ·))

def write (s : Ingestion) (events : List Event) (now : Int) :
    Ingestion × Except DrainError DrainReport :=
  let reference := s.writer.reference now
  let next := reference + s.writer.interval.millis
  let key (e : Event) := e.window s.writer.interval
  let current := events.filter (key · = reference)
  let upcoming := events.filter (key · = next)
  let stale := (events.filter fun e => key e ≠ reference ∧ key e ≠ next).length
  let s := s.count .staleEvents stale
  -- The first drain starts the horizon at its reference window: nothing older was written.
  let s := { s with
    writer := { s.writer with horizon := some (s.writer.horizon.getD reference) } }
  let (s, sealed) := s.rotate reference
  -- The next window is only appended to; it is sealed once it has been the reference window.
  match s.appendBoth (reference, current) (next, upcoming) with
  | (s, .error e) => (s, .error (.log e))
  | (s, .ok (writtenCurrent, writtenNext)) =>
    let s := { s with writer := { s.writer with lastReference := some reference } }
    let (s, outcome) := s.cleanup now
    (s, (outcome.mapError .cleanup).map fun deleted =>
      ⟨reference, events.length, writtenCurrent, writtenNext, stale, sealed, deleted⟩)

/-- Drain the queue at the given time. A writer that is not enabled only counts what it drains. -/
def drain (s : Ingestion) (now : Int) : Ingestion × Except DrainError DrainReport :=
  let (events, queue) := s.queue.drain
  let s := { s with queue }
  if s.writer.enabled then s.write events now
  else
    (s.count .eventsDiscarded events.length,
      .ok ⟨s.writer.reference now, events.length, 0, 0, 0, [], []⟩)

end Ingestion

end RequestWindows
