namespace RequestWindows

/-- Half of a surrogate pair that stands alone. -/
structure LoneSurrogate where
  code : Nat
  isSurrogate : 0xD800 ≤ code ∧ code ≤ 0xDFFF
deriving DecidableEq

/-- A text that may be torn: between its characters there can be halves of surrogate pairs. -/
inductive RawText
  | plain (s : String)
  | torn (before : String) (half : LoneSurrogate) (after : RawText)
deriving DecidableEq

namespace RawText

instance : Coe String RawText := ⟨.plain⟩

/-- Whether a text consists of characters only. -/
def isPlain : RawText → Bool
  | plain _ => true
  | torn .. => false

/-- What a half of a surrogate pair is replaced by: a character for each of the three bytes that
would encode it. -/
def replacement : String := String.ofList (List.replicate 3 (Char.ofNat 0xFFFD))

/-- A text with its halves of surrogate pairs replaced. -/
def lossy : RawText → String
  | plain s => s
  | torn before _ after => before ++ replacement ++ after.lossy

@[simp] theorem lossy_plain (s : String) : lossy (plain s) = s := rfl

@[simp] theorem isPlain_plain (s : String) : isPlain (plain s) = true := rfl

/-- A text of characters only is what it is read as again. -/
theorem plain_lossy {t : RawText} (h : t.isPlain = true) : plain t.lossy = t := by
  cases t with
  | plain s => rfl
  | torn => cases h

end RawText

end RequestWindows
