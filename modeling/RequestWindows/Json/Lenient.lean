import RequestWindows.Json.Value
import RequestWindows.Number.Numeral

namespace RequestWindows.Json

/-- Read an integer field: an integer, a switch as 0 or 1, a whole floating-point number of
magnitude less than `2 ^ 63`, or a text. -/
def lenientInt? : Json → Option Int
  | .int n => some n
  | .bool b => some (if b then 1 else 0)
  | .float x => x.toInt?.filter fun n => n.natAbs < Nat.pow 2 63
  | .str s => readPlainInt s.toList
  | _ => none

/-- The words that turn a switch on. -/
def onWords : List String := ["1", "t", "true", "y", "yes", "on"]

/-- The words that turn a switch off. -/
def offWords : List String := ["0", "f", "false", "n", "no", "off"]

/-- Read a switch given as a word, in upper or lower case. -/
def switchWord? (s : String) : Option Bool :=
  let word := String.ofList (s.toList.map Char.toLower)
  if word ∈ onWords then some true else if word ∈ offWords then some false else none

def switchNumber? (n : Int) : Option Bool :=
  if n = 1 then some true else if n = 0 then some false else none

/-- Read a switch field: a switch, the numbers 0 and 1, or a word. -/
def lenientBool? : Json → Option Bool
  | .bool b => some b
  | .int n => switchNumber? n
  | .float x => x.toInt?.bind switchNumber?
  | .str s => switchWord? s
  | _ => none

end RequestWindows.Json
