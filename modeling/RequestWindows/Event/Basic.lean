import RequestWindows.Collection.KeyedList
import RequestWindows.Number.Binary64
import RequestWindows.Text.Torn
import RequestWindows.Window

namespace RequestWindows

/-- The two halves of a request. -/
inductive Half
  | start
  | finish
deriving DecidableEq, Inhabited

namespace Half

def name : Half → String
  | start => "start"
  | finish => "end"

/-- The half written so. -/
def ofName? (s : String) : Option Half :=
  if s = "start" then some start else if s = "end" then some finish else none

@[simp] theorem ofName?_name (h : Half) : ofName? h.name = some h := by cases h <;> rfl

end Half

/-- The value of a dimension: a text, an integer or a floating-point number. -/
inductive Scalar
  | text (s : RawText)
  | int (n : Int)
  | float (x : Binary64)
deriving DecidableEq

/-- Whether a value has no torn text. -/
def Scalar.isPlain : Scalar → Bool
  | .text s => s.isPlain
  | .int _ | .float _ => true

/-- One half of a request. Its dimensions keep the order in which they were given; their names and
texts may be torn, the correlation id not, since its length is measured. -/
structure Event where
  /-- When the event was emitted, in milliseconds since the epoch. -/
  emittedAt : Nat
  /-- The name that both halves of a request share. -/
  correlationId : String
  half : Half
  dimensions : KeyedList RawText Scalar
  correlationId_ne : correlationId ≠ ""
deriving DecidableEq

/-- Whether neither the names nor the values of an event's dimensions are torn. -/
def Event.isPlain (e : Event) : Bool :=
  e.dimensions.entries.all fun d => d.1.isPlain && d.2.isPlain

/-- The key of the window that an event belongs to. -/
def Event.window (i : Interval) (e : Event) : Int := i.key e.emittedAt

end RequestWindows
