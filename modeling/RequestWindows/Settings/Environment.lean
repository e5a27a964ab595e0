import RequestWindows.Number.Numeral
import RequestWindows.Settings.Validation

namespace RequestWindows

/-- Variables of the environment with their values. -/
abbrev Environment := List (String × String)

/-- Why no settings could be read from an environment. -/
inductive EnvironmentError
  | notInteger (name value : String)
  | notSwitch (name value : String)
  | rejected (r : Rejection)
deriving DecidableEq

/-- What is said of a variable that cannot be read. -/
def EnvironmentError.message? : EnvironmentError → Option String
  | notInteger name value =>
    some (name ++ " must be a int. Got: " ++ String.ofList (Text.quote value.toList))
  | notSwitch name value =>
    some (name ++ " must be a boolean (true/false). Got: " ++
      String.ofList (Text.quote value.toList))
  | rejected _ => none

namespace Environment

/-- The value of a variable, unless it is unset or empty. -/
def value? (env : Environment) (name : String) : Option String :=
  (env.lookup name).filter (· ≠ "")

def readInteger (env : Environment) (name : String) (default : Int) :
    Except EnvironmentError Int :=
  match env.value? name with
  | none => .ok default
  | some value =>
    match readInt value.toList with
    | some n => .ok n
    | none => .error (.notInteger name value)

/-- Read a text variable without the blanks around it. -/
def readText (env : Environment) (name default : String) : String :=
  -- A variable that holds nothing but blanks counts as unset, too.
  match Text.trim ((env.value? name).getD "").toList with
  | [] => default
  | text => String.ofList text

/-- Read a switch from a word in upper or lower case with blanks around it. -/
def readSwitch (env : Environment) (name : String) (default : Bool) :
    Except EnvironmentError Bool :=
  match env.value? name with
  | none => .ok default
  | some value =>
    let word := String.ofList ((Text.trim value.toList).map Text.lower)
    if word ∈ ["true", "1", "yes", "y", "on"] then .ok true
    else if word ∈ ["false", "0", "no", "n", "off"] then .ok false
    else .error (.notSwitch name value)

/-- Read the settings of a pipeline. -/
def settings (env : Environment) : Except EnvironmentError Settings := do
  let sampling ← env.readInteger "WINDOW_SAMPLING_INTERVAL_MS" 5000
  let drain ← env.readInteger "WINDOW_DRAIN_INTERVAL_MS" 1000
  let delay ← env.readInteger "WINDOW_INITIAL_DELAY_MS" 5000
  let retention ← env.readInteger "WINDOW_RETENTION_MS" 60000
  let cleanup ← env.readInteger "WINDOW_CLEANUP_PERIOD_MS" 60000
  let expiry ← env.readInteger "WINDOW_EXPIRY_MS" 600000
  let queue ← env.readInteger "WINDOW_QUEUE_MAX_SIZE" 100000
  let directory := env.readText "WINDOW_LOG_DIR" "window_logs"
  let enabled ← env.readSwitch "WINDOW_WRITER_ENABLED" true
  let level := env.readText "WINDOW_LOG_LEVEL" "INFO"
  (Settings.ofValues
    [("sampling_interval_ms", .int sampling), ("drain_interval_ms", .int drain),
      ("initial_delay_ms", .int delay), ("retention_ms", .int retention),
      ("cleanup_period_ms", .int cleanup), ("expiry_ms", .int expiry),
      ("queue_max_size", .int queue), ("log_dir", .str directory),
      ("writer_enabled", .bool enabled), ("log_level", .str level)]).mapError .rejected

end Environment

end RequestWindows
