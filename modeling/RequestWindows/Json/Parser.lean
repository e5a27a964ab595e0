import RequestWindows.Json.Token
import RequestWindows.Json.Value
import RequestWindows.Number.Reading

/-! Reading JSON text. The parser reads one token at a time and keeps the arrays and objects that
are still open on a stack. Beyond plain JSON, the words `NaN`, `Infinity` and `-Infinity` are
numbers. -/
namespace RequestWindows.Json

/-- How deep arrays and objects that hold something may nest, and how many digits a number may have
in front of its point. -/
structure Limits where
  depth : Nat
  digits : Nat
deriving DecidableEq

/-- The limits for event lines. -/
def Limits.line : Limits := ⟨200, maxDigits⟩

/-- Whether the parts of a number are those of a JSON number: no plus sign, no superfluous zero in
front, and a digit on either side of a point. -/
def isNumber (n : Numeral) : Bool :=
  n.sign ≠ some '+' && n.whole ≠ [] && (n.whole.length = 1 || n.whole.head? ≠ some '0') &&
    n.fraction ≠ some []

/-- The value of a number: an integer if it has neither fraction nor exponent. -/
def ofNumeral (limits : Limits) (n : Numeral) : Option Json :=
  if ¬isNumber n ∨ limits.digits < n.whole.length then none
  else if n.fraction = none ∧ n.exponent = none then
    some (.int (signed n.negative (Nat.ofDigitChars 10 n.whole 0)))
  else some (.float n.toBinary64)

/-- The value that a word is. -/
def ofWord (limits : Limits) (word : List Char) : Option Json :=
  if word = "null".toList then some .null
  else if word = "true".toList then some (.bool true)
  else if word = "false".toList then some (.bool false)
  else if word = "NaN".toList then some (.float .nan)
  else if word = "Infinity".toList then some (.float (.infinite false))
  else if word = "-Infinity".toList then some (.float (.infinite true))
  else (Numeral.scan word).bind (ofNumeral limits)

/-- An array or object that is still open: what it holds so far, and in an object the name whose
value is being read. -/
inductive Frame
  | items (before : List Json)
  | member (before : List (String × Json)) (name : String)

/-- What the parser has read and expects next. -/
inductive Parser
  /-- A value. -/
  | value (stack : List Frame)
  /-- An item, or the end of an array that has none. -/
  | firstItem (stack : List Frame)
  /-- A name, or the end of an object that has no members. -/
  | firstName (stack : List Frame)
  /-- A name. -/
  | nextName (before : List (String × Json)) (stack : List Frame)
  /-- The colon after a name. -/
  | colon (before : List (String × Json)) (name : String) (stack : List Frame)
  /-- A separator, the end of what is open, or the end of the text. -/
  | after (v : Json) (stack : List Frame)

namespace Parser

/-- Read the first token of a value. -/
def start (limits : Limits) (stack : List Frame) : Token → Option Parser
  | .openObject => some (.firstName stack)
  | .openArray => some (.firstItem stack)
  | .word letters => (ofWord limits letters).map (.after · stack)
  | .text characters => some (.after (.str (String.ofList characters)) stack)
  | _ => none

/-- Read one token. -/
def step (limits : Limits) (p : Parser) (t : Token) : Option Parser :=
  match p with
  | .value stack => start limits stack t
  -- What is empty may stand one level deeper than what holds something.
  | .firstItem stack =>
    if t = .closeArray then some (.after (.arr []) stack)
    else if stack.length < limits.depth then start limits (.items [] :: stack) t
    else none
  | .firstName stack =>
    match t with
    | .closeObject => some (.after (.obj []) stack)
    | .text name =>
      if stack.length < limits.depth then some (.colon [] (String.ofList name) stack) else none
    | _ => none
  | .nextName before stack =>
    match t with
    | .text name => some (.colon before (String.ofList name) stack)
    | _ => none
  | .colon before name stack =>
    if t = .colon then some (.value (.member before name :: stack)) else none
  | .after v stack =>
    match stack, t with
    -- A comma must be followed by an item or a name, so none may stand before the end.
    | .items before :: outer, .comma => some (.value (.items (before ++ [v]) :: outer))
    | .items before :: outer, .closeArray => some (.after (.arr (before ++ [v])) outer)
    | .member before name :: outer, .comma => some (.nextName (before ++ [(name, v)]) outer)
    | .member before name :: outer, .closeObject =>
      some (.after (.obj (before ++ [(name, v)])) outer)
    | _, _ => none

/-- The value that is complete when the text ends. -/
def finish : Parser → Option Json
  | .after v [] => some v
  | _ => none

/-- Read the tokens of a text from state `p` on. -/
def run (limits : Limits) (p : Parser) : List Token → Option Json
  | [] => p.finish
  | t :: rest => (p.step limits t).bind fun next => next.run limits rest

end Parser

/-- Read a JSON text within the given limits. -/
def parseWithin (limits : Limits) (text : List Char) : Option Json :=
  (tokens text).bind fun ts => (Parser.value []).run limits ts

/-- Read a JSON text such as an event line. -/
def parse (text : List Char) : Option Json := parseWithin .line text

end RequestWindows.Json
