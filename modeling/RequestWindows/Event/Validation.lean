import RequestWindows.Event.Basic
import RequestWindows.Json.Lenient
import RequestWindows.Rejection

/-! Making events from JSON values. The time is read leniently, the other fields must have their
proper type. Of a field given several times the last value counts, and the others are not judged. -/
namespace RequestWindows.Event

/-- The names of an event's fields, in the order in which they are written. -/
def fieldNames : List String := ["emitted_at_millis", "correlation_id", "kind", "dimensions"]

def readTime (v : Json) : Option Nat :=
  v.lenientInt?.bind fun n => if 0 ≤ n then some n.toNat else none

/-- Read a correlation id, which is a text that is not empty. -/
def readId : Json → Option { s : String // s ≠ "" }
  | .str s => if h : s ≠ "" then some ⟨s, h⟩ else none
  | _ => none

def readHalf : Json → Option Half
  | .str s => Half.ofName? s
  | _ => none

/-- Read the value of a dimension. -/
def readScalar : Json → Option Scalar
  | .str s => some (.text s)
  | .int n => some (.int n)
  | .float x => some (.float x)
  | _ => none

/-- Read the bindings of the dimensions. All of them are judged, also those of one name. -/
def readBindings : List (String × Json) → Option (List (RawText × Scalar))
  | [] => some []
  | (name, v) :: rest => do
    let value ← readScalar v
    let more ← readBindings rest
    return (.plain name, value) :: more

/-- Read the dimensions, an object. Of several values of one name the last one counts, at the place
of the first. -/
def readDimensions (v : Json) : Option (KeyedList RawText Scalar) :=
  (v.members?.bind readBindings).map KeyedList.ofList

/-- The name of a field that could not be read. -/
def fault {α : Type} (name : String) (field : Option α) : List String :=
  if field.isSome then [] else [name]

/-- Make an event from the members of an object. -/
def ofMembers (members : List (String × Json)) : Except Rejection Event :=
  let time := (Json.lastNamed? "emitted_at_millis" members).bind readTime
  let id := (Json.lastNamed? "correlation_id" members).bind readId
  let half := (Json.lastNamed? "kind" members).bind readHalf
  let dimensions :=
    match Json.lastNamed? "dimensions" members with
    | none => some ∅
    | some v => readDimensions v
  let unknown := (members.map Prod.fst).filter (· ∉ fieldNames)
  -- All fields are judged before any is found at fault.
  match time, id, half, dimensions, unknown with
  | some t, some i, some h, some d, [] => .ok ⟨t, i.1, h, d, i.2⟩
  | _, _, _, _, _ =>
    .error (.of (fault "emitted_at_millis" time ++ fault "correlation_id" id ++ fault "kind" half ++
      fault "dimensions" dimensions ++ unknown) [])

/-- Make an event from a JSON value. -/
def ofJson (v : Json) : Except Rejection Event :=
  match v.members? with
  | some members => ofMembers members
  | none => .error .noRecord

/-- An event never changes: giving a field a new value is refused. -/
def assign (_ : Event) (field : String) (_ : Json) : Except Rejection Event :=
  .error (.of [field] [])

end RequestWindows.Event
