import RequestWindows.Collection.KeyedList
import RequestWindows.Json.Display
import RequestWindows.Number.Numeral

namespace RequestWindows

/-- The dimensions that have a column. -/
inductive Dimension
  | operation
  | indices
  | responseCode
  | exception
  | itemCount
deriving DecidableEq

namespace Dimension

/-- All dimensions, in the order of their columns. -/
def all : List Dimension := [operation, indices, responseCode, exception, itemCount]

def name : Dimension → String
  | operation => "operation"
  | indices => "indices"
  | responseCode => "response_code"
  | exception => "exception"
  | itemCount => "item_count"

def ofName? (s : String) : Option Dimension := all.find? fun d => d.name = s

/-- Whether the column of a dimension holds integers; the others hold texts. -/
def isInteger : Dimension → Bool
  | responseCode | itemCount => true
  | operation | indices | exception => false

@[simp] theorem ofName?_name (d : Dimension) : ofName? d.name = some d := by cases d <;> decide

end Dimension

inductive ColumnValue
  | text (s : String)
  | int (n : Int)
deriving DecidableEq

/-- Why a dimension does not fit its column. -/
inductive CoercionError
  /-- The value is no integer where the column needs one, or an integer too long to be written where
  the column needs a text; the text shows it. -/
  | notInteger (d : Dimension) (shown : List Char)
  | infinite
deriving DecidableEq

/-- What is said of a dimension that does not fit its column. -/
def CoercionError.message : CoercionError → String
  | notInteger d shown =>
    if d.isInteger then d.name ++ " must be an integer. Got: " ++ String.ofList shown
    else "Exceeds the limit (4300 digits) for integer string conversion; " ++
      "use sys.set_int_max_str_digits() to increase the limit"
  | infinite => "cannot convert float infinity to integer"

namespace Dimension

/-- The integer that a value stands for: an integer, the integer part of a number, or the integer
that a text writes. -/
def toInteger (d : Dimension) (v : Json) : Except CoercionError Int :=
  match v with
  | .int n => .ok n
  | .float (.infinite _) => .error .infinite
  | .float x => (x.truncate?.map .ok).getD (.error (.notInteger d v.shown))
  | .str s => ((readInt s.toList).map .ok).getD (.error (.notInteger d v.shown))
  | _ => .error (.notInteger d v.shown)

/-- The text that a value stands for: a text itself, any other value as messages show it. -/
def toText : Json → String
  | .str s => s
  | v => String.ofList v.shown

/-- Whether a value can be written as a text. Of integers the longest cannot. -/
def isWritable : Json → Bool
  | .int n => Binary64.decimalLength n.natAbs ≤ maxDigits
  | _ => true

def toColumn (d : Dimension) (v : Json) : Except CoercionError ColumnValue :=
  if d.isInteger then (d.toInteger v).map .int
  else if isWritable v then .ok (.text (toText v))
  else .error (.notInteger d v.shown)

/-- The column that a binding of an event fills, if it fills one. -/
def ofBinding (name : String) (v : Json) :
    Except CoercionError (Option (Dimension × ColumnValue)) :=
  match v, ofName? name with
  | .null, _ | _, none => .ok none
  | v, some d => (d.toColumn v).map fun value => some (d, value)

end Dimension

/-- The columns that the dimensions of an event fill. The first binding that does not fit decides
the error. -/
def coerceDimensions : List (String × Json) → Except CoercionError (List (Dimension × ColumnValue))
  | [] => .ok []
  | (name, v) :: rest => do
    let column ← Dimension.ofBinding name v
    let more ← coerceDimensions rest
    return column.toList ++ more

end RequestWindows
