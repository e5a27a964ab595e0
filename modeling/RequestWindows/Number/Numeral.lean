import RequestWindows.Text.Blank
import RequestWindows.Text.Digit

/-! Integers written in decimal. `readInt` takes digits of every script; `readPlainInt` takes ASCII
digits, padding in front of them and an optional fraction of zeros. Both refuse too many digits. -/
namespace RequestWindows

open Text

/-- The longest integer that is read or written, in digits. -/
def maxDigits : Nat := 4300

/-- The number with these decimal digits, the leading one first. -/
def ofDigits (digits : List Nat) : Nat := digits.foldl (fun n d => 10 * n + d) 0

/-- The digits of a numeral in which single underscores may stand between digits. The flag says
whether a digit has just been read. -/
def groupedDigits (value? : Char → Option Nat) : Bool → List Char → Option (List Nat)
  | afterDigit, [] => if afterDigit then some [] else none
  | afterDigit, c :: rest =>
    if c = '_' then if afterDigit then groupedDigits value? false rest else none
    else do
      let d ← value? c
      let ds ← groupedDigits value? true rest
      return d :: ds

/-- Whether a text begins with a minus sign, and the text after its sign if it has one. -/
def splitSign : List Char → Bool × List Char
  | '-' :: rest => (true, rest)
  | '+' :: rest => (false, rest)
  | text => (false, text)

def signed (negative : Bool) (magnitude : Nat) : Int :=
  if negative then -(magnitude : Int) else magnitude

/-- Read an integer with digits of any script. -/
def readInt (text : List Char) : Option Int := do
  let (negative, body) := splitSign (trimSpaces text)
  let digits ← groupedDigits digitValue? false body
  if digits.length ≤ maxDigits then return signed negative (ofDigits digits) else none

/-- Whether a character may pad a numeral after its first zero. -/
def isPadding (c : Char) : Bool := c = '0' || c = '_'

/-- Whether a character is an ASCII digit other than zero. -/
def isLeadingDigit (c : Char) : Bool := '1' ≤ c && c ≤ '9'

/-- A numeral without the padding in front, which is a zero with any zeros and underscores after it.
A minus sign may follow the padding. Where it is followed by a point or by nothing, its last
character is the numeral's only digit and is kept. -/
def dropPadding : List Char → Option (List Char)
  | [] => none
  | first :: more =>
    if first = '0' then
      let last := (more.takeWhile isPadding).getLast?.getD first
      match more.dropWhile isPadding with
      | [] => some [last]
      | c :: rest =>
        if c = '.' then some (last :: c :: rest)
        else if c = '-' ∨ isLeadingDigit c then some (c :: rest)
        else none
    else if isLeadingDigit first then some (first :: more)
    else none

/-- A numeral without its point if only zeros, and at least one, follow that. -/
def dropZeroFraction (numeral : List Char) : List Char :=
  let fraction := (numeral.dropWhile (· ≠ '.')).drop 1
  if fraction ≠ [] ∧ fraction.all (· = '0') then numeral.takeWhile (· ≠ '.') else numeral

/-- Whether digits are those of a numeral: at least one, and no superfluous zero in front. -/
def isStandard (digits : List Nat) : Bool :=
  digits ≠ [] && (digits.length = 1 || digits.head? ≠ some 0)

/-- Read an integer with ASCII digits, possibly padded in front and followed by a point and zeros.
Neither padding nor fraction counts towards its length. -/
def readPlainInt (text : List Char) : Option Int := do
  let (negative, padded) := splitSign (trimSpaces text)
  let numeral ← dropPadding padded
  -- A minus sign after the padding takes the place of one before it, and like a digit it may be
  -- followed by an underscore.
  let (inner, body) := splitSign numeral
  let digits ← groupedDigits asciiDigit? inner (dropZeroFraction body)
  if (negative ∧ inner) ∨ ¬isStandard digits ∨ maxDigits < digits.length then none
  else return signed (negative || inner) (ofDigits digits)

end RequestWindows
