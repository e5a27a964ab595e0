import RequestWindows.Reader.Load

namespace RequestWindows

inductive ReportLine
  | info (text : String)
  | warning (text : String)
deriving DecidableEq

namespace Report

/-- A text that may be missing. -/
def textOrNone : Option String → String
  | some s => s
  | none => "None"

/-- An integer that may be missing. -/
def intOrNone : Option Int → String
  | some n => toString n
  | none => "None"

def aggregateLine (key : Int) (a : OperationAggregate) : String :=
  "window=" ++ toString key ++ " op=" ++ textOrNone a.key.operation ++
    " code=" ++ intOrNone a.key.responseCode ++ " indices=" ++ textOrNone a.key.indices ++
    " count=" ++ toString a.latency.count ++
    " avg_latency=" ++ String.ofList a.latency.mean.textOnePlace ++
    " max_latency=" ++ toString a.latency.greatest

/-- The values of all counters by name. -/
def countersText (c : Counters) : String :=
  let pairs := Counter.all.map fun k =>
    Text.quote k.name.toList ++ ':' :: ' ' :: (toString (c.get k)).toList
  String.ofList ('\x7b' :: (Json.listed pairs ++ ['\x7d']))

/-- The line that ends the report on a window. -/
def summaryLine (key : Int) (inFlight : Nat) (c : Counters) : String :=
  "window=" ++ toString key ++ " in_flight=" ++ toString inFlight ++ " stats=" ++ countersText c

/-- The line for a window whose log was deleted before it could be read. -/
def removedLine (key : Int) : String :=
  "Window " ++ toString key ++ " was removed before it could be reported"

end Report

namespace Correlation

def reportWindow (s : Correlation) (log : EventLog) (key : Int) :
    Correlation × Except ReaderError (List ReportLine) :=
  match s.aggregateRows log key with
  | (s, .error e) => (s, .error e)
  | (s, .ok aggregates) =>
    match s.inFlightRows log key with
    | (s, .error e) => (s, .error e)
    | (s, .ok requests) =>
      (s, .ok (aggregates.map (fun a => .info (Report.aggregateLine key a)) ++
        [.info (Report.summaryLine key requests.length s.counters)]))

/-- One turn of the reporter, where `last` is the window that it has reported last: that window from
now on, and the lines that it writes. -/
def reportTurn (s : Correlation) (log : EventLog) (last : Option Int) :
    Correlation × Except ReaderError (Option Int × List ReportLine) :=
  match log.latestSealed with
  | .error e => (s, .error (.log e))
  | .ok none => (s, .ok (last, []))
  | .ok (some key) =>
    if last = some key then (s, .ok (last, []))
    -- A window that could not be reported is tried again at the next turn.
    else
      match s.reportWindow log key with
      | (s, .ok lines) => (s, .ok (some key, lines))
      | (s, .error (.log (.notSealed _))) =>
        (s, .ok (last, [.warning (Report.removedLine key)]))
      | (s, .error e) => (s, .error e)

end Correlation

end RequestWindows
