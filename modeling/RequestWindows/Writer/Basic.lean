import RequestWindows.Collection.KeySet
import RequestWindows.Number.Binary64
import RequestWindows.Window

namespace RequestWindows

/-- Fewer windows than this can be counted in 64 bits. -/
def countLimit : Nat := Nat.pow 2 63

/-- How many windows a machine can list: fewer than `windows`. It depends on the memory, but a
window takes eight bytes of a list, which cannot have more than can be counted. -/
structure ListLimit where
  windows : Nat
  positive : 0 < windows
  countable : 8 * windows ≤ countLimit
deriving DecidableEq

namespace ListLimit

theorem standard_pos : 0 < Nat.pow 2 30 := by decide

theorem standard_countable : 8 * Nat.pow 2 30 ≤ countLimit := by decide

/-- A list of this many windows takes 8 GiB. -/
def standard : ListLimit := ⟨Nat.pow 2 30, standard_pos, standard_countable⟩

end ListLimit

/-- How a writer is set up. All lengths of time are in milliseconds. -/
structure WriterSettings where
  interval : Interval
  drainInterval : Int
  /-- The time before the first drain. -/
  initialDelay : Int
  /-- The age at which sealed logs are deleted. -/
  retention : Int
  /-- How far the horizon has to move before a cleanup. -/
  cleanupPeriod : Int
  /-- How many windows a cleanup can go through. -/
  listLimit : ListLimit
  /-- The two windows that are written to are never old enough to be deleted. -/
  retention_ge : 2 * interval.millis ≤ retention
deriving DecidableEq

/-- Why a writer cannot be set up. -/
inductive WriterError
  | intervalNotPositive (millis : Int)
  | retentionTooShort (retention interval : Int)
  /-- A length of time has no nearest double-precision number. -/
  | delayTooLarge
deriving DecidableEq

/-- What is said of a writer that cannot be set up. -/
def WriterError.message : WriterError → String
  | intervalNotPositive n => "sampling_interval_ms must be > 0. Got: " ++ toString n
  | retentionTooShort r i =>
    "retention_ms must be >= 2 * sampling_interval_ms. Got: " ++ toString r ++ " < 2 * " ++
      toString i
  | delayTooLarge => "int too large to convert to float"

/-- Set up a writer with the given lengths of time. -/
def WriterSettings.create (interval drainInterval initialDelay retention cleanupPeriod : Int)
    (listLimit : ListLimit) : Except WriterError WriterSettings :=
  if hi : 0 < interval then
    if hr : 2 * interval ≤ retention then
      if Binary64.overflows drainInterval || Binary64.overflows initialDelay then
        .error .delayTooLarge
      else
        .ok ⟨⟨interval, hi⟩, drainInterval, initialDelay, retention, cleanupPeriod, listLimit, hr⟩
    else .error (.retentionTooShort retention interval)
  else .error (.intervalNotPositive interval)

structure Writer where
  settings : WriterSettings
  /-- While a writer is not enabled it discards the events that it drains. -/
  enabled : Bool
  /-- The reference window of the last drain. -/
  lastReference : Option Int
  /-- The time before which all logs have been deleted. -/
  horizon : Option Int
  /-- The windows that may have an open log. -/
  openKeys : KeySet
deriving DecidableEq

namespace Writer

/-- A writer that has not drained yet. -/
def create (settings : WriterSettings) (enabled : Bool) : Writer :=
  ⟨settings, enabled, none, none, ∅⟩

/-- The length of the windows. -/
def interval (w : Writer) : Interval := w.settings.interval

/-- Fewer windows than this can be listed. -/
def listLimit (w : Writer) : Nat := w.settings.listLimit.windows

/-- The reference window of a drain: the last one that is complete at the time. -/
def reference (w : Writer) (now : Int) : Int := w.interval.key now - w.interval.millis

/-- The window before which logs are old enough to be deleted. -/
def retentionHorizon (w : Writer) (now : Int) : Int := w.interval.key (now - w.settings.retention)

end Writer

end RequestWindows
