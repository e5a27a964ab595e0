import RequestWindows.Writer.Drain

namespace RequestWindows

/-- What happens up to one reading of the clock: the offers made before it, and the time that it
gives unless it fails. -/
structure Turn where
  offers : List Offer
  now : Option Int

/-- Why a background run, or one cycle of it, failed. -/
inductive BackgroundError
  | log (e : LogError)
  /-- The clock could not be read. -/
  | clockFailed
  | drain (e : DrainError)
deriving DecidableEq

/-- What is said of a background run that failed, where there are words of its own. -/
def BackgroundError.message? : BackgroundError → Option String
  | log e | drain (.log e) => e.message?
  | clockFailed => some "clock failed"
  | drain (.cleanup _) => none

namespace Ingestion

/-- Put several offers on the queue. -/
def putAll (s : Ingestion) (offers : List Offer) : Ingestion :=
  offers.foldl (fun s o => (s.put o).1) s

/-- Start the writer: delete all logs and begin anew. Failures of the file system do not stop it. -/
def start (s : Ingestion) : Except LogError Ingestion :=
  let (log, outcome) := s.log.wipe
  -- A wipe that broke off half way has deleted what it came to before that.
  let fresh := { s with
    log, writer := { s.writer with lastReference := none, horizon := none, openKeys := ∅ } }
  match outcome with
  | .ok _ => .ok fresh
  | .error e => if e.isSystem then .ok fresh else .error e

def cycle (s : Ingestion) (t : Turn) : Ingestion × Except BackgroundError DrainReport :=
  let s := s.putAll t.offers
  match t.now with
  | none => (s, .error .clockFailed)
  | some now =>
    let (s, outcome) := s.drain now
    (s, outcome.mapError .drain)

/-- Run the started writer for some cycles and close it. Only a failure of the last drain is
told. -/
def runCycles (s : Ingestion) (cycles : List Turn) (final : Turn) :
    Ingestion × Except BackgroundError DrainReport :=
  (cycles.foldl (fun s t => (s.cycle t).1) s).cycle final

/-- The cycles that a writer runs which is to be closed after `cycles`. One without an initial delay
runs its first cycle in any case, unless it is closed before it has begun. -/
def cyclesRun (s : Ingestion) (cycles : List Turn) (final : Turn) (atOnce : Bool) : List Turn :=
  if cycles.isEmpty ∧ ¬atOnce ∧ s.writer.settings.initialDelay ≤ 0 then [final] else cycles

/-- Start the writer, run it for some cycles and close it, at once or when it has begun: the answer
is the number of times that the clock was read. -/
def background (s : Ingestion) (cycles : List Turn) (final : Turn) (atOnce : Bool) :
    Ingestion × Except BackgroundError Nat :=
  match s.start with
  | .error e => (s, .error (.log e))
  | .ok s =>
    let cycles := s.cyclesRun cycles final atOnce
    let (s, outcome) := s.runCycles cycles final
    (s, outcome.map fun _ => cycles.length + 1)

end Ingestion

end RequestWindows
