import RequestWindows.Json.Value
import RequestWindows.Number.Decimal
import RequestWindows.Text.Quoted

namespace RequestWindows.Json

/-- How a character is written in a string. -/
def escapedChar (c : Char) : List Char :=
  if c = '"' ∨ c = '\\' then ['\\', c]
  else if c = '\x08' then ['\\', 'b']
  else if c = '\t' then ['\\', 't']
  else if c = '\n' then ['\\', 'n']
  else if c = '\x0c' then ['\\', 'f']
  else if c = '\r' then ['\\', 'r']
  else if c.toNat < 0x20 then '\\' :: 'u' :: Text.hex 4 c.toNat
  else [c]

/-- A string between double quotes. -/
def quoted (s : String) : List Char := '"' :: (s.toList.flatMap escapedChar ++ ['"'])

def intText (n : Int) : List Char := (toString n).toList

/-- The text of a floating-point number. -/
def floatText : Binary64 → List Char
  | .finite s m e _ => FloatLayout.line.finite s m e
  | _ => "null".toList

/-- Texts one after another with commas between them. -/
def commaSeparated : List (List Char) → List Char
  | [] => []
  | [t] => t
  | t :: rest => t ++ ',' :: commaSeparated rest

/-- The text of an object whose members are written already. -/
def objectText (members : List (String × List Char)) : List Char :=
  '\x7b' :: (commaSeparated (members.map fun m => quoted m.1 ++ ':' :: m.2) ++ ['\x7d'])

/-- The text of an array whose items are written already. -/
def arrayText (items : List (List Char)) : List Char := '[' :: (commaSeparated items ++ [']'])

mutual

def text : Json → List Char
  | .null => "null".toList
  | .bool b => if b then "true".toList else "false".toList
  | .int n => intText n
  | .float x => floatText x
  | .str s => quoted s
  | .arr items => arrayText (itemTexts items)
  | .obj members => objectText (memberTexts members)

def itemTexts : List Json → List (List Char)
  | [] => []
  | v :: rest => text v :: itemTexts rest

/-- The names of an object's members with the texts of their values. -/
def memberTexts : List (String × Json) → List (String × List Char)
  | [] => []
  | (name, v) :: rest => (name, text v) :: memberTexts rest

end

end RequestWindows.Json
