import RequestWindows.Number.Binary64

namespace RequestWindows

/-- The number `coefficient * 10 ^ exponent`. -/
structure Decimal where
  coefficient : Nat
  exponent : Int
deriving DecidableEq

namespace Decimal

/-- The double nearest to a decimal with a sign. -/
def toBinary64 (negative : Bool) (d : Decimal) : Binary64 :=
  Binary64.ofDecimal negative d.coefficient d.exponent

/-- The least `p` with `num / den < 10 ^ p`, for positive `num` and `den`. -/
def order (num den : Nat) : Int :=
  let p : Int := (Binary64.decimalLength num : Int) - (Binary64.decimalLength den : Int)
  if den * wholePower 10 p ≤ num * wholePower 10 (-p) then p + 1 else p

/-- The coefficient of the largest decimal with the given exponent that is at most `num / den`, and
how what is left over compares with half a unit. -/
def below (num den : Nat) (exponent : Int) : Nat × Ordering :=
  let n := num * wholePower 10 (-exponent)
  let d := den * wholePower 10 exponent
  (n / d, compare (2 * (n % d)) d)

/-- The decimals with the given exponent next to `num / den`, the nearer one first; of two equally
near ones the even one comes first. -/
def neighbours (num den : Nat) (exponent : Int) : List Decimal :=
  let (c, side) := below num den exponent
  let low : Decimal := ⟨c, exponent⟩
  let high : Decimal := ⟨c + 1, exponent⟩
  if side = .lt ∨ (side = .eq ∧ c % 2 = 0) then [low, high] else [high, low]

/-- The decimals of at most 17 digits next to `num / den`, fewer digits first. -/
def candidates (num den : Nat) : List Decimal :=
  (List.range 17).flatMap fun (n : Nat) => neighbours num den (order num den - ((n : Int) + 1))

/-- The decimal that is exactly `significand * 2 ^ exponent`. -/
def exact (significand : Nat) (exponent : Int) : Decimal :=
  ⟨significand * wholePower 2 exponent * wholePower 5 (-exponent), -((-exponent).toNat : Int)⟩

/-- The decimal of fewest digits that reads back as `significand * 2 ^ exponent`, and of those the
nearest one. -/
def shortest (significand : Nat) (exponent : Int) : Decimal :=
  let num := Binary64.numerator significand exponent
  let den := Binary64.denominator exponent
  let target := Binary64.assemble false significand exponent
  -- Seventeen digits suffice for every double, so the exact decimal is never needed.
  ((candidates num den).find? fun d => d.toBinary64 false = target).getD
    (exact significand exponent)

/-- The digits of a positive decimal without zeros at the end, and the place of the point: the
number is `0.digits * 10 ^ point`. -/
def digitsAndPoint (d : Decimal) : List Char × Int :=
  let digits := Nat.toDigits 10 d.coefficient
  -- Dropping zeros at the end does not move the point, which is counted from the front.
  let kept := (digits.reverse.dropWhile (· = '0')).reverse
  (if kept = [] then ['0'] else kept, digits.length + d.exponent)

end Decimal

/-- How a finite number is written: positionally while the leading digit stands for a power of ten
from `lowest` to `highest`, else with an exponent of at least `exponentWidth` digits. -/
structure FloatLayout where
  lowest : Int
  highest : Int
  exponentWidth : Nat

namespace FloatLayout

/-- Texts and reports write exponents from -4 to 15 positionally and others with two digits. -/
def report : FloatLayout := ⟨-4, 15, 2⟩

/-- Event lines write exponents from -5 to 15 positionally and others without padding. -/
def line : FloatLayout := ⟨-5, 15, 1⟩

/-- Digits with the point after the first `point` of them, and at least one digit after it. -/
def positional (digits : List Char) (point : Int) : List Char :=
  if point ≤ 0 then '0' :: '.' :: (List.replicate (-point).toNat '0' ++ digits)
  else if (digits.length : Int) ≤ point then
    digits ++ List.replicate (point - digits.length).toNat '0' ++ ['.', '0']
  else digits.take point.toNat ++ '.' :: digits.drop point.toNat

/-- A sign and the magnitude of an exponent, padded with zeros. -/
def exponentText (width : Nat) (e : Int) : List Char :=
  let digits := Nat.toDigits 10 e.natAbs
  (if e < 0 then '-' else '+') :: (List.replicate (width - digits.length) '0' ++ digits)

/-- One digit, the others after a point if there are any, and the exponent. -/
def scientific (width : Nat) (digits : List Char) (e : Int) : List Char :=
  digits.take 1 ++ (if digits.length ≤ 1 then [] else '.' :: digits.drop 1) ++
    'e' :: exponentText width e

/-- The text of the positive number `0.digits * 10 ^ point`. -/
def write (l : FloatLayout) (digits : List Char) (point : Int) : List Char :=
  if l.lowest ≤ point - 1 ∧ point - 1 ≤ l.highest then positional digits point
  else scientific l.exponentWidth digits (point - 1)

/-- The text of the finite double with this sign, significand and exponent. -/
def finite (l : FloatLayout) (negative : Bool) (significand : Nat) (exponent : Int) : List Char :=
  let magnitude :=
    if significand = 0 then ['0', '.', '0']
    else
      let (digits, point) := (Decimal.shortest significand exponent).digitsAndPoint
      l.write digits point
  if negative then '-' :: magnitude else magnitude

end FloatLayout

namespace Binary64

/-- The text of a number in messages and reports: shortest digits, `inf`, `-inf` or `nan`. -/
def text : Binary64 → List Char
  | .nan => "nan".toList
  | .infinite s => if s then "-inf".toList else "inf".toList
  | .finite s m e _ => FloatLayout.report.finite s m e

/-- The text of a number with one decimal place, rounded from the exact value with ties to even. -/
def textOnePlace : Binary64 → List Char
  | .finite s m e _ =>
    let tenths := roundQuotient (10 * numerator m e) (denominator e)
    let magnitude := Nat.toDigits 10 (tenths / 10) ++ '.' :: Nat.toDigits 10 (tenths % 10)
    if s then '-' :: magnitude else magnitude
  | x => x.text

end Binary64

end RequestWindows
