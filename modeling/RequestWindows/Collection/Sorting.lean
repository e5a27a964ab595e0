namespace RequestWindows

universe u

variable {α : Type u}

/-- Put `a` into a sorted list, before the first element that `a` is allowed to precede. -/
def insertSorted (le : α → α → Bool) (a : α) : List α → List α
  | [] => [a]
  | b :: rest => if le a b then a :: b :: rest else b :: insertSorted le a rest

/-- The list in ascending order of `le`, equal elements in their old order. -/
def sortBy (le : α → α → Bool) : List α → List α
  | [] => []
  | a :: rest => insertSorted le a (sortBy le rest)

theorem insertSorted_perm (le : α → α → Bool) (a : α) (l : List α) :
    (insertSorted le a l).Perm (a :: l) := by
  induction l with
  | nil => exact .refl _
  | cons b rest ih =>
    rw [insertSorted]
    split
    · exact .refl _
    · exact (ih.cons b).trans (.swap a b rest)

theorem sortBy_perm (le : α → α → Bool) (l : List α) : (sortBy le l).Perm l := by
  induction l with
  | nil => exact .refl _
  | cons a rest ih => exact (insertSorted_perm le a _).trans (ih.cons a)

theorem pairwise_insertSorted {le : α → α → Bool}
    (trans : ∀ a b c, le a b = true → le b c = true → le a c = true)
    (total : ∀ a b, le a b = true ∨ le b a = true) (a : α) {l : List α}
    (h : l.Pairwise (le · · = true)) : (insertSorted le a l).Pairwise (le · · = true) := by
  induction l with
  | nil => simp [insertSorted]
  | cons b rest ih =>
    rw [insertSorted]
    split
    · next hab =>
      refine List.pairwise_cons.2 ⟨fun c hc => ?_, h⟩
      rcases List.mem_cons.1 hc with rfl | hc
      · exact hab
      · exact trans a b c hab (List.rel_of_pairwise_cons h hc)
    · next hab =>
      refine List.pairwise_cons.2 ⟨fun c hc => ?_, ih h.of_cons⟩
      rcases List.mem_cons.1 ((insertSorted_perm le a rest).mem_iff.1 hc) with rfl | hc
      · exact (total c b).resolve_left hab
      · exact List.rel_of_pairwise_cons h hc

theorem pairwise_sortBy {le : α → α → Bool}
    (trans : ∀ a b c, le a b = true → le b c = true → le a c = true)
    (total : ∀ a b, le a b = true ∨ le b a = true) (l : List α) :
    (sortBy le l).Pairwise (le · · = true) := by
  induction l with
  | nil => exact .nil
  | cons a rest ih => exact pairwise_insertSorted trans total a ih

/-- Integers in ascending order. -/
def sortInts (l : List Int) : List Int := sortBy (· ≤ ·) l

/-- Texts in ascending order of their characters' code points. -/
def sortTexts (l : List String) : List String := sortBy (· ≤ ·) l

end RequestWindows
