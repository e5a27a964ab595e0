import RequestWindows.Settings.Path

namespace RequestWindows

/-- How much is written to the program's own log. -/
inductive LogLevel
  | critical
  | debug
  | error
  | info
  | warning
deriving DecidableEq

namespace LogLevel

/-- All levels, in the order of their names. -/
def all : List LogLevel := [critical, debug, error, info, warning]

def name : LogLevel → String
  | critical => "CRITICAL"
  | debug => "DEBUG"
  | error => "ERROR"
  | info => "INFO"
  | warning => "WARNING"

def ofName? (s : List Char) : Option LogLevel := all.find? fun l => l.name.toList = s

end LogLevel

/-- The settings of a pipeline. Lengths of time are in milliseconds. -/
structure Settings where
  /-- The length of a window. -/
  samplingInterval : Int
  drainInterval : Int
  /-- The time before the first drain. -/
  initialDelay : Int
  /-- The age at which sealed logs are deleted. -/
  retention : Int
  /-- How far the horizon has to move before a cleanup. -/
  cleanupPeriod : Int
  /-- How long a request is in flight before it expires. -/
  expiry : Int
  /-- How many events the queue can hold. -/
  queueCapacity : Int
  /-- The directory of the window logs. -/
  logDirectory : String
  /-- A writer that is not enabled discards the events that it drains. -/
  writerEnabled : Bool
  logLevel : LogLevel
  samplingInterval_pos : 0 < samplingInterval
  drainInterval_pos : 0 < drainInterval
  initialDelay_nonneg : 0 ≤ initialDelay
  cleanupPeriod_pos : 0 < cleanupPeriod
  expiry_pos : 0 < expiry
  queueCapacity_pos : 0 < queueCapacity
  retention_ge : 2 * samplingInterval ≤ retention
deriving DecidableEq

end RequestWindows
