import RequestWindows.Number.Reading
import RequestWindows.Pipeline
import RequestWindows.Settings.Environment

namespace RequestWindows

/-- Why a demonstration cannot be run. -/
inductive DemoError
  | environment (e : EnvironmentError)
  /-- The length of the run is no number. -/
  | seconds (text : String)
  | pipeline (e : PipelineError)
  | log (e : LogError)
  /-- The length of a window has no nearest double-precision number. -/
  | intervalTooLarge
deriving DecidableEq

/-- The variables of the environment that a demonstration looks at. -/
def demoVariables : List String :=
  ["DEMO_SECONDS", "WINDOW_SAMPLING_INTERVAL_MS", "WINDOW_DRAIN_INTERVAL_MS",
    "WINDOW_INITIAL_DELAY_MS", "WINDOW_RETENTION_MS", "WINDOW_CLEANUP_PERIOD_MS",
    "WINDOW_EXPIRY_MS", "WINDOW_QUEUE_MAX_SIZE", "WINDOW_LOG_DIR", "WINDOW_WRITER_ENABLED",
    "WINDOW_LOG_LEVEL"]

/-- What is said of a demonstration that cannot be run, where there are words of its own. -/
def DemoError.message? : DemoError → Option String
  | environment e => e.message?
  | seconds text =>
    some ("could not convert string to float: " ++ String.ofList (Text.quote text.toList))
  | pipeline e => some e.message
  | log e => e.message?
  | intervalTooLarge => some WriterError.delayTooLarge.message

namespace Demo

/-- A demonstration that is set up. -/
structure Plan where
  settings : Settings
  seconds : Binary64

/-- The length of a run in milliseconds. A run of infinite length has none. -/
def Plan.millis? (p : Plan) : Option Nat :=
  match p.seconds with
  | .finite false m e _ => some (1000 * Binary64.numerator m e / Binary64.denominator e)
  | .infinite false => none
  | _ => some 0

def shows (level : LogLevel) : ReportLine → Bool
  | .info _ => level = .debug || level = .info
  | .warning _ => level = .debug || level = .info || level = .warning

def shownLine : ReportLine → String
  | .info s => "INFO main: " ++ s
  | .warning s => "WARNING main: " ++ s

/-- Read from the environment what to demonstrate and for how long. -/
def plan (env : Environment) : Except DemoError Plan := do
  let settings ← env.settings.mapError .environment
  let text := (env.lookup "DEMO_SECONDS").getD "30"
  match readFloat text.toList with
  | some seconds => return ⟨settings, seconds⟩
  | none => throw (.seconds text)

/-- Start the pipeline of a plan over a directory: what is left there, and the pipeline. -/
def start (p : Plan) (directory : Directory) : Directory × Except DemoError Pipeline :=
  match Pipeline.create (.ofSettings p.settings) directory with
  | .error e => (directory, .error (.pipeline e))
  | .ok pipeline =>
    match pipeline.ingestion.start with
    | .error e => (directory, .error (.log e))
    | .ok ingestion =>
      -- The reporter is set up last, when the logs of earlier runs are gone already.
      (ingestion.log.directory,
        if Binary64.overflows p.settings.samplingInterval then .error .intervalTooLarge
        else .ok { pipeline with ingestion })

/-- Set up and start a demonstration over a directory. -/
def run (env : Environment) (directory : Directory) : Directory × Except DemoError Pipeline :=
  match plan env with
  | .error e => (directory, .error e)
  | .ok p => start p directory

end Demo

end RequestWindows
