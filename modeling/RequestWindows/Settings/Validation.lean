import RequestWindows.Json.Display
import RequestWindows.Json.Lenient
import RequestWindows.Rejection
import RequestWindows.Settings.Basic
import RequestWindows.Text.Blank
import RequestWindows.Text.Letter

namespace RequestWindows.Settings

/-- What reading a field gives: its value, or the fault with the remark of the rule that was broken,
if it was one of the rules that remark on it. -/
abbrev Field (α : Type) := Except (Option String) α

namespace Field

def read {α : Type} (values : List (String × Json)) (name : String) (default : α)
    (judge : Json → Field α) : Field α :=
  match Json.lastNamed? name values with
  | some v => judge v
  | none => .ok default

def fault {α : Type} (name : String) : Field α → List String
  | .ok _ => []
  | .error _ => [name]

def remark {α : Type} : Field α → List String
  | .error (some r) => [r]
  | _ => []

end Field

def readPositive (v : Json) : Field { n : Int // 0 < n } :=
  match v.lenientInt? with
  | none => .error none
  | some n =>
    if h : 0 < n then .ok ⟨n, h⟩ else .error (some ("must be > 0. Got: " ++ toString n))

/-- An integer that is not negative. -/
def readNonnegative (v : Json) : Field { n : Int // 0 ≤ n } :=
  match v.lenientInt? with
  | none => .error none
  | some n =>
    if h : 0 ≤ n then .ok ⟨n, h⟩ else .error (some ("must be >= 0. Got: " ++ toString n))

def readPath : Json → Field String
  | .str s => .ok (String.ofList (Path.normal s.toList))
  | _ => .error none

def readSwitch (v : Json) : Field Bool :=
  match v.lenientBool? with
  | some b => .ok b
  | none => .error none

/-- What is said of a text that names no level. -/
def levelRemark (s : String) : String :=
  let names := LogLevel.all.map fun l => Text.quote l.name.toList
  "must be one of [" ++ String.ofList (Json.listed names) ++ "]. Got: " ++
    String.ofList (Text.quote s.toList)

/-- A level, named in upper or lower case with blanks around it. -/
def readLevel : Json → Field LogLevel
  | .str s =>
    match LogLevel.ofName? ((Text.trim s.toList).map Text.upper) with
    | some l => .ok l
    | none => .error (some (levelRemark s))
  | _ => .error none

/-- What is said when logs would be deleted too early. -/
def retentionRemark (retention interval : Int) : String :=
  "WINDOW_RETENTION_MS must be at least twice WINDOW_SAMPLING_INTERVAL_MS (" ++
    toString retention ++ " < 2 * " ++ toString interval ++ ")"

/-- Make settings from named values. Values of other names are passed over. -/
def ofValues (values : List (String × Json)) : Except Rejection Settings :=
  let sampling := Field.read values "sampling_interval_ms" ⟨5000, by decide⟩ readPositive
  let drain := Field.read values "drain_interval_ms" ⟨1000, by decide⟩ readPositive
  let delay := Field.read values "initial_delay_ms" ⟨5000, by decide⟩ readNonnegative
  let retention := Field.read values "retention_ms" ⟨60000, by decide⟩ readPositive
  let cleanup := Field.read values "cleanup_period_ms" ⟨60000, by decide⟩ readPositive
  let expiry := Field.read values "expiry_ms" ⟨600000, by decide⟩ readPositive
  let queue := Field.read values "queue_max_size" ⟨100000, by decide⟩ readPositive
  let directory := Field.read values "log_dir" "window_logs" readPath
  let enabled := Field.read values "writer_enabled" true readSwitch
  let level := Field.read values "log_level" .info readLevel
  match sampling, drain, delay, retention, cleanup, expiry, queue, directory, enabled, level with
  | .ok s, .ok d, .ok i, .ok r, .ok c, .ok x, .ok q, .ok path, .ok on, .ok l =>
    if h : 2 * s.1 ≤ r.1 then
      .ok ⟨s, d, i, r, c, x, q, path, on, l, s.2, d.2, i.2, c.2, x.2, q.2, h⟩
    else .error (.of [] [retentionRemark r s])
  | _, _, _, _, _, _, _, _, _, _ =>
    .error (.of
      (sampling.fault "sampling_interval_ms" ++ drain.fault "drain_interval_ms" ++
        delay.fault "initial_delay_ms" ++ retention.fault "retention_ms" ++
        cleanup.fault "cleanup_period_ms" ++ expiry.fault "expiry_ms" ++
        queue.fault "queue_max_size" ++ directory.fault "log_dir" ++
        enabled.fault "writer_enabled" ++ level.fault "log_level")
      (sampling.remark ++ drain.remark ++ delay.remark ++ retention.remark ++ cleanup.remark ++
        expiry.remark ++ queue.remark ++ directory.remark ++ enabled.remark ++ level.remark))

def toValues (s : Settings) : List (String × Json) :=
  [("sampling_interval_ms", .int s.samplingInterval), ("drain_interval_ms", .int s.drainInterval),
    ("initial_delay_ms", .int s.initialDelay), ("retention_ms", .int s.retention),
    ("cleanup_period_ms", .int s.cleanupPeriod), ("expiry_ms", .int s.expiry),
    ("queue_max_size", .int s.queueCapacity), ("log_dir", .str s.logDirectory),
    ("writer_enabled", .bool s.writerEnabled), ("log_level", .str s.logLevel.name)]

end RequestWindows.Settings
