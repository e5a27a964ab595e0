import RequestWindows.Demo
import RequestWindows.Producer
import Std.Time.DateTime.Timestamp

namespace RequestWindows.Main

/-- The variables that the environment sets. -/
def environment : IO Environment := do
  let mut env : Environment := []
  for name in demoVariables do
    if let some value ← IO.getEnv name then env := env ++ [(name, value)]
  return env

/-- The time, in milliseconds since the epoch. -/
def now : IO Int := do
  return (← Std.Time.Timestamp.now).toMillisecondsSinceUnixEpoch.toInt

/-- Read what a directory holds, and make it if it is missing. -/
def readDirectory (root : String) : IO Directory := do
  IO.FS.createDirAll root
  let mut d : Directory := ∅
  for entry in ← (← IO.FS.realPath root).readDir do
    if ← entry.path.isDir then d := d.insert entry.fileName .folder
    else
      let bytes ← IO.FS.readBinFile entry.path
      d := d.insert entry.fileName (.file bytes.toList)
  return d

/-- Bring a directory from one state to another. -/
def saveDirectory (root : String) (before after : Directory) : IO Unit := do
  for (name, _) in before.entries do
    if (after.get? name).isNone then IO.FS.removeFile (root ++ "/" ++ name)
  for (name, entry) in after.entries do
    if before.get? name ≠ some entry then
      if let .file bytes := entry then
        IO.FS.writeBinFile (root ++ "/" ++ name) ⟨bytes.toArray⟩

def randomTurn (time : Int) : IO ProducerTurn := do
  let id ← IO.rand 0 (Nat.pow 2 128 - 1)
  let delay ← IO.rand 0 49
  let operation ← IO.rand 0 1
  let indices ← IO.rand 0 2
  let code ← IO.rand 0 4
  let items ← IO.rand 1 500
  let chance ← IO.rand 0 99
  return ⟨String.ofList (Text.hex 32 id), time, time + delay, operation, indices, code, items,
    .ofIntRatio chance 100, false, false⟩

/-- The state of a run: the pipeline, the window reported last as long as there are reports, and the
times of the next drain and the next report. -/
structure Run where
  pipeline : Pipeline
  reported : Option (Option Int)
  nextDrain : Int
  nextReport : Int

/-- The number of producers. -/
def producers : Nat := 4

/-- Let the producers emit a request each. -/
def produce (r : Run) (time : Int) : IO Run := do
  let mut s := r.pipeline.ingestion
  for _ in List.range producers do
    s := (Producer.run s (.ofIntRatio 20 1) [← randomTurn time]).ingestion
  return { r with pipeline := { r.pipeline with ingestion := s } }

def drain (root : String) (r : Run) (time : Int) (always : Bool) : IO Run := do
  if ¬always ∧ time < r.nextDrain then return r
  let before := r.pipeline.log.directory
  let (pipeline, _) := r.pipeline.ingest (·.drain time)
  saveDirectory root before pipeline.log.directory
  let period := pipeline.ingestion.writer.settings.drainInterval
  return { r with pipeline, nextDrain := r.nextDrain + period }

/-- Report, if it is time to. A query that fails ends the reports. -/
def report (level : LogLevel) (r : Run) (time : Int) : IO Run := do
  if time < r.nextReport then return r
  let some last := r.reported | return r
  let (pipeline, outcome) := r.pipeline.correlate (·.reportTurn · last)
  let r := { r with pipeline, nextReport := r.nextReport + pipeline.reader.interval.millis }
  match outcome with
  | .error _ => return { r with reported := none }
  | .ok (key, lines) =>
    for line in lines do
      if Demo.shows level line then IO.eprintln (Demo.shownLine line)
    return { r with reported := some key }

/-- Go on until the run ends, and drain what is left then. -/
partial def loop (root : String) (level : LogLevel) (ending : Option Int) (r : Run) : IO Unit := do
  let time ← now
  if ending.any (· ≤ time) then
    let _ ← drain root r time true
  else
    let r ← produce r time
    let r ← drain root r time false
    let r ← report level r time
    IO.sleep 50
    loop root level ending r

end RequestWindows.Main

open RequestWindows in
/-- Run the demonstration that the environment asks for. -/
def main : IO UInt32 := do
  match Demo.plan (← Main.environment) with
  | .error e =>
    IO.eprintln (e.message?.getD "the settings were rejected")
    return 1
  | .ok plan =>
    let root := plan.settings.logDirectory
    let before ← Main.readDirectory root
    let (after, outcome) := Demo.start plan before
    Main.saveDirectory root before after
    match outcome with
    | .error e =>
      IO.eprintln (e.message?.getD "the demonstration cannot be run")
      return 1
    | .ok pipeline =>
      let time ← Main.now
      let settings := plan.settings
      Main.loop root settings.logLevel (plan.millis?.map fun (n : Nat) => time + n)
        ⟨pipeline, some none, time + settings.initialDelay, time + settings.samplingInterval⟩
      return 0
