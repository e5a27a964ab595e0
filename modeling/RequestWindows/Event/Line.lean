import RequestWindows.Event.Validation
import RequestWindows.Json.Parser
import RequestWindows.Json.Printer

namespace RequestWindows

/-- The JSON value of a dimension's value. -/
def Scalar.toJson : Scalar → Json
  | .text s => .str s.lossy
  | .int n => .int n
  | .float x => .float x

namespace Event

def toJson (e : Event) : Json :=
  .obj [("emitted_at_millis", .int e.emittedAt), ("correlation_id", .str e.correlationId),
    ("kind", .str e.half.name),
    ("dimensions", .obj (e.dimensions.entries.map fun d => (d.1.lossy, d.2.toJson)))]

/-- Whether an event can be written. A torn value cannot; a torn name can only if names are not held
to it strictly, and then its halves are replaced. -/
def isWritable (strictNames : Bool) (e : Event) : Bool :=
  e.dimensions.entries.all fun d => (!strictNames || d.1.isPlain) && d.2.isPlain

theorem isWritable_of_isPlain {e : Event} (h : e.isPlain = true) (strictNames : Bool) :
    e.isWritable strictNames = true := by
  unfold isWritable
  rw [List.all_eq_true]
  intro d hd
  have hplain := List.all_eq_true.mp h d hd
  rw [Bool.and_eq_true] at hplain ⊢
  exact ⟨by rw [hplain.1, Bool.or_true], hplain.2⟩

/-- The line of text that an event is written as if it can be, without its line feed. -/
def text (e : Event) : List Char := e.toJson.text

/-- Read an event from JSON text. -/
def ofText (text : List Char) : Except Rejection Event :=
  match Json.parse text with
  | some v => ofJson v
  | none => .error .noRecord

end Event

end RequestWindows
