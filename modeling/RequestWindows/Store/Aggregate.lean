import RequestWindows.Collection.Sorting
import RequestWindows.Number.Binary64
import RequestWindows.Store.View

namespace RequestWindows

structure GroupKey where
  operation : Option String
  responseCode : Option Int
  indices : Option String
  exception : Option String
deriving DecidableEq

/-- How two values compare where a missing one comes last. -/
def compareMissingLast {α : Type} [Ord α] : Option α → Option α → Ordering
  | some a, some b => compare a b
  | some _, none => .lt
  | none, some _ => .gt
  | none, none => .eq

namespace GroupKey

def ofColumns (c : Columns) : GroupKey := ⟨c.operation, c.responseCode, c.indices, c.exception⟩

/-- How two groups compare: by operation, then response code, then indices, then exception. -/
def compare (k j : GroupKey) : Ordering :=
  (compareMissingLast k.operation j.operation).then <|
    (compareMissingLast k.responseCode j.responseCode).then <|
      (compareMissingLast k.indices j.indices).then (compareMissingLast k.exception j.exception)

/-- Whether one group may stand before another. -/
def le (k j : GroupKey) : Bool := (k.compare j).isLE

end GroupKey

/-- The number, sum, least and greatest of some integers. -/
structure Summary where
  count : Nat
  sum : Int
  least : Int
  greatest : Int
deriving DecidableEq

namespace Summary

/-- The summary of some integers, if there are any. -/
def ofList? : List Int → Option Summary
  | [] => none
  | n :: rest =>
    some ⟨(n :: rest).length, rest.foldl (· + ·) n, rest.foldl min n, rest.foldl max n⟩

/-- A sum as the whole double that its mean is computed from. The sum is held as two words,
`high * 2 ^ 64 + low`, and each is rounded before they are added. Where the high word is -1 the low
one is large although the sum may be small, and the rounding is that of `-(sum + 1)`. -/
def roundSum (sum : Int) : Int :=
  let word : Int := Nat.pow 2 64
  let high := sum / word
  if high = -1 then roundInt (roundInt (sum + 1) - 1)
  else roundInt (roundInt (sum % word) + roundInt high * word)

/-- The mean of some integers as a double: their sum, rounded, divided by their number. -/
def mean (s : Summary) : Binary64 := .ofIntRatio (roundSum s.sum) s.count

end Summary

/-- The completed requests of one group: a summary of their latencies, and one of their item counts
as far as they are known. -/
structure OperationAggregate where
  key : GroupKey
  latency : Summary
  items : Option Summary
deriving DecidableEq

/-- The groups of some completed requests, in ascending order. -/
def groupKeys (requests : List CompletedRequest) : List GroupKey :=
  sortBy GroupKey.le (requests.map fun r => .ofColumns r.columns).eraseDups

def aggregateGroup? (requests : List CompletedRequest) (key : GroupKey) :
    Option OperationAggregate :=
  let group := requests.filter fun r => GroupKey.ofColumns r.columns = key
  (Summary.ofList? (group.map (·.latency))).map fun latency =>
    ⟨key, latency, Summary.ofList? (group.filterMap (·.columns.itemCount))⟩

def aggregate (requests : List CompletedRequest) : List OperationAggregate :=
  (groupKeys requests).filterMap (aggregateGroup? requests)

end RequestWindows
