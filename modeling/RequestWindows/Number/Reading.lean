import RequestWindows.Number.Decimal
import RequestWindows.Number.Numeral

namespace RequestWindows

open Text

/-- The parts of a written number: its sign character, the digits before and after the point, and
the exponent. A part that is missing altogether is `none`. -/
structure Numeral where
  sign : Option Char
  whole : List Char
  fraction : Option (List Char)
  exponent : Option Int
deriving DecidableEq

namespace Numeral

def isDigit (c : Char) : Bool := (asciiDigit? c).isSome

/-- The sign character that a text begins with, and the text after it. -/
def splitSign : List Char → Option Char × List Char
  | '-' :: rest => (some '-', rest)
  | '+' :: rest => (some '+', rest)
  | text => (none, text)

/-- Read an exponent, which is all that is left of a number: an optional sign and digits. -/
def scanExponent (text : List Char) : Option Int :=
  let (sign, digits) := splitSign text
  if digits ≠ [] ∧ digits.all isDigit then
    some (signed (sign = some '-') (Nat.ofDigitChars 10 digits 0))
  else none

/-- Read what follows the digits before and after the point: nothing, or an exponent. -/
def scanTail (sign : Option Char) (whole : List Char) (fraction : Option (List Char)) :
    List Char → Option Numeral
  | [] => some ⟨sign, whole, fraction, none⟩
  | c :: rest =>
    if c = 'e' ∨ c = 'E' then
      (scanExponent rest).map fun e => ⟨sign, whole, fraction, some e⟩
    else none

/-- Split a written number into its parts. -/
def scan (text : List Char) : Option Numeral :=
  let (sign, body) := splitSign text
  let whole := body.takeWhile isDigit
  match body.dropWhile isDigit with
  | '.' :: rest => scanTail sign whole (some (rest.takeWhile isDigit)) (rest.dropWhile isDigit)
  | rest => scanTail sign whole none rest

/-- Whether a number is below zero, or is a negative zero. -/
def negative (n : Numeral) : Bool := n.sign = some '-'

def digits (n : Numeral) : List Char := n.whole ++ n.fraction.getD []

def magnitude (n : Numeral) : Decimal :=
  ⟨Nat.ofDigitChars 10 n.digits 0, n.exponent.getD 0 - (n.fraction.getD []).length⟩

/-- The double nearest to a number. -/
def toBinary64 (n : Numeral) : Binary64 := n.magnitude.toBinary64 n.negative

end Numeral

/-- A text in which every decimal digit is replaced by the ASCII digit of the same value and every
underscore between two digits is removed. No other underscore is allowed. The flag says whether a
digit has just been read. -/
def plainDigits : Bool → List Char → Option (List Char)
  | _, [] => some []
  | afterDigit, c :: rest =>
    if c = '_' then
      if afterDigit ∧ ((rest.head?).bind digitValue?).isSome then plainDigits false rest else none
    else
      match digitValue? c with
      | some d => (plainDigits true rest).map (Nat.digitChar d :: ·)
      | none => (plainDigits false rest).map (c :: ·)

/-- Read a floating-point number: digits of any script with an optional point and exponent, or the
words `inf`, `infinity` and `nan` in any case, with blanks around it. -/
def readFloat (text : List Char) : Option Binary64 := do
  let plain ← plainDigits false (trimSpaces text)
  let (sign, body) := Numeral.splitSign plain
  let word := body.map Char.toLower
  if word = "inf".toList ∨ word = "infinity".toList then return .infinite (sign = some '-')
  else if word = "nan".toList then return .nan
  else
    let n ← Numeral.scan plain
    if n.digits = [] then none else return n.toBinary64

end RequestWindows
