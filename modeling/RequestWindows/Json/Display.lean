import RequestWindows.Json.Value
import RequestWindows.Number.Decimal
import RequestWindows.Text.Quoted

namespace RequestWindows.Json

open Text

/-- Texts one after another with a comma and a blank between them. -/
def listed : List (List Char) → List Char
  | [] => []
  | [t] => t
  | t :: rest => t ++ ',' :: ' ' :: listed rest

mutual

/-- How a message shows a value. -/
def shown : Json → List Char
  | .null => "None".toList
  | .bool b => if b then "True".toList else "False".toList
  | .int n => (toString n).toList
  | .float x => x.text
  | .str s => quote s.toList
  | .arr items => '[' :: (listed (shownItems items) ++ [']'])
  | .obj members => '\x7b' :: (listed (shownMembers members) ++ ['\x7d'])

/-- How a message shows the items of an array. -/
def shownItems : List Json → List (List Char)
  | [] => []
  | v :: rest => shown v :: shownItems rest

/-- How a message shows the members of an object. -/
def shownMembers : List (String × Json) → List (List Char)
  | [] => []
  | (name, v) :: rest => (quote name.toList ++ ':' :: ' ' :: shown v) :: shownMembers rest

end

end RequestWindows.Json
