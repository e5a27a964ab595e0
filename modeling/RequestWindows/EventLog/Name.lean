import RequestWindows.Number.Numeral
import RequestWindows.Text.Quoted

namespace RequestWindows

/-- The ending of an open log's name. -/
def openEnding : String := ".tmp"

/-- The name of a window's sealed log. Limits on the digits of a number that is written are left
out; a name of so many digits is too long for a file. -/
def sealedName (key : Int) : String := toString key

/-- The name of a window's open log. -/
def openName (key : Int) : String := toString key ++ openEnding

/-- A name taken apart: a stem of digits of any kind, and whether the ending of an open log is
missing. -/
structure LogName where
  stem : List Char
  isSealed : Bool
deriving DecidableEq

namespace LogName

/-- Take a name apart. A name whose stem is not all digits is not that of a log. -/
def ofString? (name : String) : Option LogName :=
  let text := name.toList
  let ending := openEnding.toList
  let isSealed := ¬ending.isSuffixOf text
  let stem := if isSealed then text else text.take (text.length - ending.length)
  if stem ≠ [] ∧ stem.all Text.isDigit then some ⟨stem, isSealed⟩ else none

/-- The key that a stem stands for. Digits without a decimal value have none. -/
def key? (n : LogName) : Option Int := readInt n.stem

/-- What is said of a stem that stands for no key. -/
def refusal (stem : List Char) : String :=
  "invalid literal for int() with base 10: " ++ String.ofList ((Text.quote stem).take 200)

theorem isDigit_of_mem_toDigits {n : Nat} {c : Char} (h : c ∈ Nat.toDigits 10 n) :
    c.isDigit = true :=
  Nat.isDigit_of_mem_toDigits (by decide) (by decide) h

theorem toDigits_injective {m n : Nat} (h : Nat.toDigits 10 m = Nat.toDigits 10 n) : m = n := by
  rw [← Nat.ofDigitChars_toDigits (n := m) (by decide : 1 < 10) (by decide), h,
    Nat.ofDigitChars_toDigits (by decide) (by decide)]

end LogName

/-- The name of a sealed log is a key's digits, after a minus sign if the key is negative. -/
theorem toList_sealedName (key : Int) :
    (sealedName key).toList =
      if key < 0 then '-' :: Nat.toDigits 10 key.natAbs else Nat.toDigits 10 key.natAbs := by
  cases key with
  | ofNat n =>
    change (Nat.repr n).toList = _
    rw [Nat.repr_eq_ofList_toDigits, String.toList_ofList]
    rfl
  | negSucc n =>
    change ("-" ++ Nat.repr (n + 1)).toList = _
    rw [String.toList_append, Nat.repr_eq_ofList_toDigits, if_pos (Int.negSucc_lt_zero n)]
    exact congrArg ('-' :: ·) String.toList_ofList

theorem sealedName_injective {j k : Int} (h : sealedName j = sealedName k) : j = k := by
  have e := congrArg String.toList h
  rw [toList_sealedName, toList_sealedName] at e
  have minus : ∀ {m n : Nat}, '-' :: Nat.toDigits 10 m ≠ Nat.toDigits 10 n := fun {m n} e =>
    absurd (LogName.isDigit_of_mem_toDigits (by rw [← e]; exact .head _)) (by decide)
  split at e <;> split at e
  · have := LogName.toDigits_injective (List.cons.inj e).2
    omega
  · exact absurd e minus
  · exact absurd e.symm minus
  · have := LogName.toDigits_injective e
    omega

theorem openName_injective {j k : Int} (h : openName j = openName k) : j = k :=
  sealedName_injective ((String.append_left_inj _).1 h)

theorem sealedName_ne_openName (j k : Int) : sealedName j ≠ openName k := by
  intro h
  have hm : 'm' ∈ (sealedName j).toList := by
    rw [h, openName, String.toList_append]
    exact List.mem_append_right _ (by decide)
  have noLetter : ∀ n, 'm' ∉ Nat.toDigits 10 n := fun n hn =>
    absurd (LogName.isDigit_of_mem_toDigits hn) (by decide)
  rw [toList_sealedName] at hm
  split at hm
  · rcases List.mem_cons.1 hm with e | hm
    · exact absurd e (by decide)
    · exact noLetter _ hm
  · exact noLetter _ hm

end RequestWindows
