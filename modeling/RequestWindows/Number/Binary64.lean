/-! Double-precision numbers as exact values. A finite double is `significand * 2 ^ exponent` in its
one normal form. Every operation computes its exact result and rounds it once, to nearest, ties to
even. -/
namespace RequestWindows

/-- The normal form of a finite double: at most 53 bits, and all 53 unless the exponent is the
least one. -/
def Binary64.Canonical (significand : Nat) (exponent : Int) : Prop :=
  significand < Nat.pow 2 53 ∧ -1074 ≤ exponent ∧ exponent ≤ 971 ∧
    (Nat.pow 2 52 ≤ significand ∨ exponent = -1074)

instance (m : Nat) (e : Int) : Decidable (Binary64.Canonical m e) :=
  inferInstanceAs (Decidable (_ ∧ _ ∧ _ ∧ _))

/-- A double-precision number. -/
inductive Binary64
  | nan
  | infinite (negative : Bool)
  | finite (negative : Bool) (significand : Nat) (exponent : Int)
      (canonical : Binary64.Canonical significand exponent)
deriving DecidableEq

/-- `base` to the power `e`, or 1 if `e` is negative. A quotient is multiplied by `base ^ e` when
its numerator is multiplied by `wholePower base e` and its denominator by `wholePower base (-e)`. -/
def wholePower (base : Nat) (e : Int) : Nat := Nat.pow base e.toNat

/-- The quotient of two naturals rounded to the nearest natural, a tie to the even one. -/
def roundQuotient (num den : Nat) : Nat :=
  let q := num / den
  let r := num % den
  if den < 2 * r ∨ (2 * r = den ∧ q % 2 = 1) then q + 1 else q

/-- A natural rounded to 53 significant bits, a tie to the even neighbour. -/
def roundNat (n : Nat) : Nat :=
  if n < Nat.pow 2 53 then n
  else
    let unit := Nat.pow 2 (n.log2 - 52)
    roundQuotient n unit * unit

theorem roundNat_of_lt {n : Nat} (h : n < Nat.pow 2 53) : roundNat n = n := if_pos h

/-- An integer rounded to 53 significant bits, a tie to the even neighbour. -/
def roundInt (n : Int) : Int := n.sign * roundNat n.natAbs

namespace Binary64

def zero (negative : Bool) : Binary64 := .finite negative 0 (-1074) (by decide)

instance : Inhabited Binary64 := ⟨zero false⟩

/-- Whether `2 ^ k` is at most `num / den`. -/
def powTwoLE (k : Int) (num den : Nat) : Bool :=
  den * wholePower 2 k ≤ num * wholePower 2 (-k)

/-- The exponent `k` with `2 ^ k ≤ num / den < 2 ^ (k + 1)`, for positive `num` and `den`. -/
def binaryOrder (num den : Nat) : Int :=
  let k : Int := (num.log2 : Int) - (den.log2 : Int)
  if powTwoLE k num den then k else k - 1

/-- `num / den` in units of `2 ^ exponent`, rounded to the nearest natural. -/
def roundScaled (num den : Nat) (exponent : Int) : Nat :=
  roundQuotient (num * wholePower 2 (-exponent)) (den * wholePower 2 exponent)

/-- The double with this significand and exponent, infinite when there is none so large. -/
def assemble (negative : Bool) (significand : Nat) (exponent : Int) : Binary64 :=
  if h : Canonical significand exponent then .finite negative significand exponent h
  else .infinite negative

/-- The double nearest to `num / den`, a tie to the even significand. -/
def ofRatio (negative : Bool) (num den : Nat) : Binary64 :=
  if num = 0 then zero negative
  else
    let exponent := max (-1074) (binaryOrder num den - 52)
    let significand := roundScaled num den exponent
    -- Rounding up 53 ones yields a 54th bit, which moves into the exponent.
    if significand = Nat.pow 2 53 then assemble negative (Nat.pow 2 52) (exponent + 1)
    else assemble negative significand exponent

/-- The double nearest to `num / den` for an integer numerator. -/
def ofIntRatio (num : Int) (den : Nat) : Binary64 := ofRatio (num < 0) num.natAbs den

/-- The number of decimal digits of a natural. -/
def decimalLength (n : Nat) : Nat := (Nat.toDigits 10 n).length

/-- The double nearest to `coefficient * 10 ^ exponent`. Magnitudes beyond `10 ^ 310` and below
`10 ^ -330` are settled by their size alone. -/
def ofDecimal (negative : Bool) (coefficient : Nat) (exponent : Int) : Binary64 :=
  if coefficient = 0 then zero negative
  else
    let size : Int := decimalLength coefficient + exponent
    -- Without these two cases an exponent of many digits would ask for a power of that many digits.
    if 310 < size then .infinite negative
    else if size < -330 then zero negative
    else ofRatio negative (coefficient * wholePower 10 exponent) (wholePower 10 (-exponent))

/-- The magnitude of a finite double as a quotient of naturals. -/
def numerator (significand : Nat) (exponent : Int) : Nat := significand * wholePower 2 exponent

/-- The divisor that goes with `numerator`. -/
def denominator (exponent : Int) : Nat := wholePower 2 (-exponent)

/-- The number of units of `2 ^ -1074` in one. -/
def one : Nat := Nat.pow 2 1074

/-- A finite double as a number of units of `2 ^ -1074`. -/
def units (negative : Bool) (significand : Nat) (exponent : Int) : Int :=
  let magnitude : Int := (significand * wholePower 2 (exponent + 1074) : Nat)
  if negative then -magnitude else magnitude

/-- The integer part of a finite double; the fraction is dropped on either side of zero. -/
def truncate? : Binary64 → Option Int
  | .finite s m e _ => some ((units s m e).tdiv one)
  | _ => none

/-- The integer that a finite double without a fraction is. -/
def toInt? : Binary64 → Option Int
  | .finite s m e _ =>
    if units s m e % one = 0 then some (units s m e / one) else none
  | _ => none

/-- Whether a number is neither infinite nor `nan`. -/
def isFinite : Binary64 → Bool
  | .finite .. => true
  | _ => false

/-- Whether the first number is less than the second; `nan` is less than nothing. -/
def less : Binary64 → Binary64 → Bool
  | .finite s m e _, .finite t n f _ => units s m e < units t n f
  | .infinite s, .finite .. => s
  | .finite .., .infinite t => !t
  | .infinite s, .infinite t => s && !t
  | _, _ => false

/-- The double nearest to `1 / x`. -/
def reciprocal : Binary64 → Binary64
  | .nan => .nan
  | .infinite s => zero s
  | .finite s m e _ =>
    if m = 0 then .infinite s else ofRatio s (denominator e) (numerator m e)

/-- The double nearest to `x / 2`. -/
def half : Binary64 → Binary64
  | .finite s m e _ => ofRatio s (numerator m e) (2 * denominator e)
  | x => x

/-- Whether an integer is too large in magnitude to have a nearest finite double. -/
def overflows (n : Int) : Bool := Nat.pow 2 1024 - Nat.pow 2 970 ≤ n.natAbs

end Binary64

end RequestWindows
