import RequestWindows.Reader.Report
import RequestWindows.Settings.Basic
import RequestWindows.Writer.Background

namespace RequestWindows

/-- The lengths and sizes that a pipeline is built with. -/
structure PipelineParameters where
  queueCapacity : Int
  samplingInterval : Int
  drainInterval : Int
  initialDelay : Int
  retention : Int
  cleanupPeriod : Int
  writerEnabled : Bool
  readerInterval : Int
  expiry : Int
  cachedWindows : Int
  /-- The database that the reader's stores share, if they share one. -/
  shared : Option String
  /-- How many windows the machine can list. -/
  listLimit : ListLimit
  /-- Whether events with torn names are refused when they are written. -/
  strictNames : Bool
deriving DecidableEq

namespace PipelineParameters

/-- What a pipeline is built with when nothing else is asked for. -/
def standard : PipelineParameters :=
  ⟨100000, 5000, 1000, 5000, 60000, 60000, true, 5000, 600000, 4, none, .standard, false⟩

def ofSettings (s : Settings) : PipelineParameters :=
  ⟨s.queueCapacity, s.samplingInterval, s.drainInterval, s.initialDelay, s.retention,
    s.cleanupPeriod, s.writerEnabled, s.samplingInterval, s.expiry, standard.cachedWindows, none,
    standard.listLimit, standard.strictNames⟩

end PipelineParameters

/-- Why a pipeline cannot be built. -/
inductive PipelineError
  | queue (capacity : Int)
  | writer (e : WriterError)
  | reader (e : ReaderError)
deriving DecidableEq

/-- What is said of a pipeline that cannot be built. -/
def PipelineError.message : PipelineError → String
  | queue capacity => EventQueue.refusal capacity
  | writer e => e.message
  | reader e => e.message?.getD ""

structure Pipeline where
  ingestion : Ingestion
  reader : Reader
  warehouse : Warehouse
deriving DecidableEq

namespace Pipeline

/-- Build a pipeline over a directory. The queue is judged first, then the writer, then the
reader. -/
def create (p : PipelineParameters) (directory : Directory) : Except PipelineError Pipeline :=
  match EventQueue.ofCapacity? p.queueCapacity with
  | none => .error (.queue p.queueCapacity)
  | some queue =>
    match WriterSettings.create p.samplingInterval p.drainInterval p.initialDelay p.retention
        p.cleanupPeriod p.listLimit with
    | .error e => .error (.writer e)
    | .ok settings =>
      match Reader.create p.readerInterval p.expiry p.cachedWindows p.shared with
      | .error e => .error (.reader e)
      | .ok reader =>
        .ok ⟨⟨queue, ⟨directory, .none, p.strictNames⟩, .create settings p.writerEnabled, .zero⟩,
          reader, .empty⟩

def log (p : Pipeline) : EventLog := p.ingestion.log

def correlation (p : Pipeline) : Correlation := ⟨p.reader, p.warehouse, p.ingestion.counters⟩

/-- Act on the writing side. -/
def ingest {α : Type} (p : Pipeline) (act : Ingestion → Ingestion × α) : Pipeline × α :=
  let (ingestion, answer) := act p.ingestion
  ({ p with ingestion }, answer)

/-- Act on the reading side. -/
def correlate {α : Type} (p : Pipeline) (act : Correlation → EventLog → Correlation × α) :
    Pipeline × α :=
  let (s, answer) := act p.correlation p.log
  ({ p with
    ingestion := { p.ingestion with counters := s.counters }
    reader := s.reader
    warehouse := s.warehouse }, answer)

/-- Change the logs. -/
def withLog (p : Pipeline) (log : EventLog) : Pipeline :=
  { p with ingestion := { p.ingestion with log } }

end Pipeline

end RequestWindows
