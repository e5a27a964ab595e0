import RequestWindows.Collection.KeyedList
import RequestWindows.Number.Binary64

namespace RequestWindows

inductive Json
  | null
  | bool (b : Bool)
  | int (n : Int)
  | float (x : Binary64)
  | str (s : String)
  | arr (items : List Json)
  | obj (members : List (String × Json))

instance : Inhabited Json := ⟨.null⟩

namespace Json

def members? : Json → Option (List (String × Json))
  | .obj ms => some ms
  | _ => none

def items? : Json → Option (List Json)
  | .arr vs => some vs
  | _ => none

/-- The value of a name among members: that of the last member with the name. -/
def lastNamed? (name : String) (members : List (String × Json)) : Option Json :=
  members.reverse.lookup name

/-- The value of the last member of an object with this name. -/
def get? (name : String) (v : Json) : Option Json := v.members?.bind (lastNamed? name)

end Json

end RequestWindows
