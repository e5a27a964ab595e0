import RequestWindows.Collection.Sorting

namespace RequestWindows

/-- The fields at fault, in ascending order and each one once, and the remarks of the rules that
were broken, in ascending order. -/
structure Rejection where
  fields : List String
  remarks : List String
deriving DecidableEq

namespace Rejection

/-- The rejection of something that is no record at all. -/
def noRecord : Rejection := ⟨[], []⟩

/-- The rejection with these fields and remarks, given in any order. -/
def of (fields remarks : List String) : Rejection :=
  ⟨sortTexts fields.eraseDups, sortTexts remarks⟩

end Rejection

end RequestWindows
