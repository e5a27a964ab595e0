namespace RequestWindows.Json

/-- A token of JSON text. -/
inductive Token
  | openObject
  | closeObject
  | openArray
  | closeArray
  | colon
  | comma
  | word (letters : List Char)
  | text (characters : List Char)
deriving DecidableEq

/-- Where the scanner stands. What it has read of a word or a string is held last character
first. -/
inductive Scanner
  | between
  | inWord (read : List Char)
  | inText (read : List Char)
  /-- After a backslash. -/
  | escape (read : List Char)
  /-- In a numbered escape of which `count` digits are read; `high` is the first half of a pair. -/
  | numbered (read : List Char) (high : Option Nat) (count value : Nat)
  /-- After the first half of a pair, which needs a second one. -/
  | afterHigh (read : List Char) (high : Nat)
  /-- After the first half of a pair and a backslash. -/
  | secondEscape (read : List Char) (high : Nat)
deriving DecidableEq

/-- White space between tokens. -/
def isLayout (c : Char) : Bool := c = ' ' || c = '\t' || c = '\n' || c = '\r'

/-- The token that a character is by itself. -/
def punctuation? (c : Char) : Option Token :=
  if c = '\x7b' then some .openObject
  else if c = '\x7d' then some .closeObject
  else if c = '[' then some .openArray
  else if c = ']' then some .closeArray
  else if c = ':' then some .colon
  else if c = ',' then some .comma
  else none

/-- The character that a one-letter escape stands for. -/
def escaped? (c : Char) : Option Char :=
  if c = '"' ∨ c = '\\' ∨ c = '/' then some c
  else if c = 'b' then some '\x08'
  else if c = 'f' then some '\x0c'
  else if c = 'n' then some '\n'
  else if c = 'r' then some '\r'
  else if c = 't' then some '\t'
  else none

/-- The value of a hexadecimal digit in either case. -/
def hexValue? (c : Char) : Option Nat :=
  if '0' ≤ c ∧ c ≤ '9' then some (c.toNat - 48)
  else if 'a' ≤ c ∧ c ≤ 'f' then some (c.toNat - 87)
  else if 'A' ≤ c ∧ c ≤ 'F' then some (c.toNat - 55)
  else none

/-- Whether a number is the first half of a pair that stands for one character. -/
def isHigh (n : Nat) : Bool := 0xD800 ≤ n && n ≤ 0xDBFF

/-- Whether a number is the second half of a pair. -/
def isLow (n : Nat) : Bool := 0xDC00 ≤ n && n ≤ 0xDFFF

namespace Scanner

/-- Take in the number of a complete escape: a character, or half of a pair. A half alone is
refused. -/
def unit (read : List Char) (high : Option Nat) (value : Nat) : Option Scanner :=
  match high with
  | some h =>
    if isLow value then
      some (.inText (Char.ofNat (0x10000 + (h - 0xD800) * 0x400 + (value - 0xDC00)) :: read))
    else none
  | none =>
    if isHigh value then some (.afterHigh read value)
    else if isLow value then none
    else some (.inText (Char.ofNat value :: read))

/-- Read a character between tokens, where `before` holds the word that ends here, if any. -/
def outside (before : List Token) (c : Char) (extend : Scanner) : Scanner × List Token :=
  if isLayout c then (.between, before)
  else if c = '"' then (.inText [], before)
  else
    match punctuation? c with
    | some t => (.between, before ++ [t])
    | none => (extend, [])

/-- Read one character: the state after it and the tokens that it completes. -/
def step (s : Scanner) (c : Char) : Option (Scanner × List Token) :=
  match s with
  | .between => some (outside [] c (.inWord [c]))
  | .inWord read => some (outside [.word read.reverse] c (.inWord (c :: read)))
  | .inText read =>
    if c = '"' then some (.between, [.text read.reverse])
    else if c = '\\' then some (.escape read, [])
    else if c.toNat < 0x20 then none
    else some (.inText (c :: read), [])
  | .escape read =>
    if c = 'u' then some (.numbered read none 0 0, [])
    else (escaped? c).map fun d => (.inText (d :: read), [])
  | .numbered read high count value => do
    let d ← hexValue? c
    let value := value * 16 + d
    -- The fourth digit completes the escape.
    if count = 3 then (unit read high value).map (·, [])
    else return (.numbered read high (count + 1) value, [])
  | .afterHigh read high => if c = '\\' then some (.secondEscape read high, []) else none
  | .secondEscape read high =>
    if c = 'u' then some (.numbered read (some high) 0 0, []) else none

/-- The token that the end of the text completes; no string may be open there. -/
def finish : Scanner → Option (List Token)
  | .between => some []
  | .inWord read => some [.word read.reverse]
  | _ => none

/-- The tokens of a text that is read from state `s` on. -/
def run (s : Scanner) : List Char → Option (List Token)
  | [] => s.finish
  | c :: rest => do
    let (next, completed) ← s.step c
    let more ← run next rest
    return completed ++ more

end Scanner

/-- The tokens of a text. -/
def tokens (text : List Char) : Option (List Token) := Scanner.between.run text

end RequestWindows.Json
