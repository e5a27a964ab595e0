import RequestWindows.Writer.Drain

namespace RequestWindows

/-- What chance and the clock decide in one turn of a producer. -/
structure ProducerTurn where
  correlationId : String
  startTime : Int
  endTime : Int
  /-- Which operation is chosen. -/
  operation : Nat
  indices : Nat
  responseCode : Nat
  /-- The number of items before it is brought into its bounds. -/
  items : Int
  /-- A number that decides whether the request fails. -/
  chance : Binary64
  /-- Whether the producer is told to stop while it waits for the end of the request. -/
  stopsBeforeEnd : Bool
  /-- Whether it is told to stop while it waits for the next request. -/
  stopsAfterEnd : Bool

/-- What a producer has done: the writing side, the lengths of its waits in seconds, and the
rejection of an event that ended it, if one did. -/
structure ProducerRun where
  ingestion : Ingestion
  waits : List Binary64
  rejection : Option Rejection

namespace Producer

def operations : List String := ["search", "bulk"]

/-- The indices to choose from. -/
def indexNames : List String := ["logs", "orders", "metrics"]

def responseCodes : List Int := [200, 200, 200, 404, 429]

/-- The response code of a request that failed without one. -/
def failedWithoutStatus : Int := -1

/-- The least rate, in requests per second. -/
def leastRate : Binary64 := .ofDecimal false 1 (-3)

/-- Requests whose chance is less than this fail. -/
def failureChance : Binary64 := .ofDecimal false 5 (-2)

/-- The time from one request to the next, in seconds. -/
def interval (rate : Binary64) : Binary64 :=
  (if rate.less leastRate then leastRate else rate).reciprocal

/-- The number of items brought into its bounds. -/
def itemCount (n : Int) : Int := max 1 (min 500 n)

def record (time : Int) (id : String) (half : Half) (dimensions : List (String × Json)) : Json :=
  .obj [("emitted_at_millis", .int time), ("correlation_id", .str id), ("kind", .str half.name),
    ("dimensions", .obj dimensions)]

def startEvent (t : ProducerTurn) : Except Rejection Event :=
  Event.ofJson <| record t.startTime t.correlationId .start
    [("operation", .str (operations.getD t.operation "")),
      ("indices", .str (indexNames.getD t.indices "")), ("item_count", .int (itemCount t.items))]

/-- The event that ends the request of a turn. -/
def endEvent (t : ProducerTurn) : Except Rejection Event :=
  Event.ofJson <| record t.endTime t.correlationId .finish <|
    if t.chance.less failureChance then
      [("response_code", .int failedWithoutStatus), ("exception", .str "ConnectionError")]
    else [("response_code", .int (responseCodes.getD t.responseCode 0))]

/-- Run a producer for some turns, where `pause` is the time from one request to the next. -/
def runTurns (s : Ingestion) (pause : Binary64) : List ProducerTurn → ProducerRun
  | [] => ⟨s, [], none⟩
  | t :: rest =>
    match startEvent t with
    | .error r => ⟨s, [], some r⟩
    | .ok e =>
      let s := (s.put (.event e)).1
      -- A request whose producer is stopped now never ends.
      if t.stopsBeforeEnd then ⟨s, [pause.half], none⟩
      else
        match endEvent t with
        | .error r => ⟨s, [pause.half], some r⟩
        | .ok e =>
          let s := (s.put (.event e)).1
          if t.stopsAfterEnd then ⟨s, [pause.half, pause], none⟩
          else
            let more := runTurns s pause rest
            { more with waits := pause.half :: pause :: more.waits }

/-- Run a producer of the given rate, in requests per second. -/
def run (s : Ingestion) (rate : Binary64) (turns : List ProducerTurn) : ProducerRun :=
  runTurns s (interval rate) turns

end Producer

end RequestWindows
