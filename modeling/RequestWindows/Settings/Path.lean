namespace RequestWindows

namespace Path

/-- The pieces of a text between its slashes. -/
def pieces : List Char → List (List Char)
  | [] => [[]]
  | c :: rest =>
    if c = '/' then [] :: pieces rest
    else
      match pieces rest with
      | [] => [[c]]
      | piece :: more => (c :: piece) :: more

/-- The steps of a path. Empty pieces and the piece that stays in the same folder are no steps. -/
def steps (text : List Char) : List (List Char) :=
  (pieces text).filter fun p => p ≠ [] ∧ p ≠ ['.']

/-- The root that a path starts from. Two slashes make a root of their own, one or more than two
make the usual one. -/
def root : List Char → List Char
  -- Three or more come first, since they begin with two.
  | '/' :: '/' :: '/' :: _ => ['/']
  | '/' :: '/' :: _ => ['/', '/']
  | '/' :: _ => ['/']
  | _ => []

/-- Steps with slashes between them. -/
def joined : List (List Char) → List Char
  | [] => []
  | [step] => step
  | step :: rest => step ++ '/' :: joined rest

/-- The written form of a path. A path that leads nowhere is a single point. -/
def normal (text : List Char) : List Char :=
  let written := root text ++ joined (steps text)
  if written = [] then ['.'] else written

end Path

end RequestWindows
