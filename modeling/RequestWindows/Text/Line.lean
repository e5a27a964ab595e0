import RequestWindows.Text.Utf8

namespace RequestWindows.Text

/-- Whether a character ends a line. -/
def isLineEnd (c : Char) : Bool := c = '\n' || c = '\r'

/-- The ended lines of a text, and what follows the last of them. -/
def endedLines : List Char → List (List Char) × List Char
  | [] => ([], [])
  | c :: rest =>
    let (ended, tail) := endedLines rest
    if isLineEnd c then ([] :: ended, tail)
    else
      match ended with
      | [] => ([], c :: tail)
      | line :: more => ((c :: line) :: more, tail)

theorem endedLines_append {line : List Char} (h : ∀ c ∈ line, isLineEnd c = false)
    (rest : List Char) :
    endedLines (line ++ '\n' :: rest) = (line :: (endedLines rest).1, (endedLines rest).2) := by
  induction line with
  | nil => simp [endedLines, isLineEnd]
  | cons c line ih =>
    rw [List.cons_append, endedLines, ih fun d hd => h d (.tail _ hd)]
    simp [h c (.head _)]

/-- Lines that are written one after another, each ended by a line feed, are read back. -/
theorem endedLines_flatMap {ls : List (List Char)}
    (h : ∀ line ∈ ls, ∀ c ∈ line, isLineEnd c = false) :
    endedLines (ls.flatMap (· ++ ['\n'])) = (ls, []) := by
  induction ls with
  | nil => rfl
  | cons line rest ih =>
    rw [List.flatMap_cons, List.append_assoc, List.singleton_append,
      endedLines_append (h line (.head _)), ih fun l hl => h l (.tail _ hl)]

/-- All lines of a text, the last one ended or not. -/
def lines (text : List Char) : List (List Char) :=
  let (ended, tail) := endedLines text
  ended ++ [tail]

/-- A text without a carriage return at its end, where a line feed might have followed. -/
def withholdReturn (text : List Char) : List Char :=
  if text.getLast? = some '\r' then text.dropLast else text

/-- The lines of a file that can be read: all of them, or the ended ones when decoding broke off. -/
def Decoded.lines (d : Decoded) : List (List Char) :=
  if d.whole then Text.lines d.text else (endedLines (withholdReturn d.text)).1

end RequestWindows.Text
