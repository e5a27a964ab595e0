namespace RequestWindows.Text

/-- The upper-case form of a letter. The dotless i and the long s are the two letters outside the
English alphabet whose upper-case form is one letter inside it. -/
def upper (c : Char) : Char :=
  if c = 'ı' then 'I' else if c = 'ſ' then 'S' else c.toUpper

/-- The lower-case form of a letter. The kelvin sign is the one letter outside the English alphabet
whose lower-case form is one letter inside it. -/
def lower (c : Char) : Char :=
  if c = '\u212a' then 'k' else c.toLower

end RequestWindows.Text
