namespace RequestWindows.Text

/-- The characters with the Unicode property White_Space. -/
def isSpace (c : Char) : Bool :=
  (9 ≤ c.toNat && c.toNat ≤ 13) || c.toNat == 0x20 || c.toNat == 0x85 || c.toNat == 0xA0 ||
    c.toNat == 0x1680 || (0x2000 ≤ c.toNat && c.toNat ≤ 0x200A) || c.toNat == 0x2028 ||
    c.toNat == 0x2029 || c.toNat == 0x202F || c.toNat == 0x205F || c.toNat == 0x3000

/-- White space and the information separators U+001C to U+001F. -/
def isBlank (c : Char) : Bool :=
  isSpace c || (0x1C ≤ c.toNat && c.toNat ≤ 0x1F)

/-- The text without the run of `p`-characters at either end. -/
def trimBy (p : Char → Bool) (text : List Char) : List Char :=
  (((text.dropWhile p).reverse).dropWhile p).reverse

/-- The text without white space at either end. -/
def trimSpaces (text : List Char) : List Char := trimBy isSpace text

/-- The text without blanks at either end. -/
def trim (text : List Char) : List Char := trimBy isBlank text

end RequestWindows.Text
