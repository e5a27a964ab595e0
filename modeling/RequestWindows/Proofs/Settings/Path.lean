import RequestWindows.Settings.Path

namespace RequestWindows.Path

/-- Whether a piece is a step: it leads somewhere, and no slash divides it. -/
structure IsStep (p : List Char) : Prop where
  ne_nil : p ≠ []
  ne_point : p ≠ ['.']
  undivided : '/' ∉ p

theorem pieces_slash (rest : List Char) : pieces ('/' :: rest) = [] :: pieces rest := by
  rw [pieces, if_pos rfl]

theorem pieces_cons {c : Char} {rest piece : List Char} {more : List (List Char)} (hc : c ≠ '/')
    (h : pieces rest = piece :: more) : pieces (c :: rest) = (c :: piece) :: more := by
  rw [pieces, if_neg hc, h]

theorem pieces_ne_nil (text : List Char) : pieces text ≠ [] := by
  cases text with
  | nil => exact List.cons_ne_nil _ _
  | cons c rest =>
    unfold pieces
    split
    · exact List.cons_ne_nil _ _
    · split
      · exact List.cons_ne_nil _ _
      · exact List.cons_ne_nil _ _

theorem undivided_of_mem_pieces {text p : List Char} (h : p ∈ pieces text) : '/' ∉ p := by
  induction text generalizing p with
  | nil =>
    rw [pieces, List.mem_singleton] at h
    rw [h]
    exact List.not_mem_nil
  | cons c rest ih =>
    by_cases hc : c = '/'
    · subst hc
      rw [pieces_slash, List.mem_cons] at h
      obtain rfl | h := h
      · exact List.not_mem_nil
      · exact ih h
    · obtain ⟨piece, more, hrest⟩ := List.exists_cons_of_ne_nil (pieces_ne_nil rest)
      rw [pieces_cons hc hrest, List.mem_cons] at h
      rw [hrest] at ih
      obtain rfl | h := h
      · exact List.not_mem_cons_of_ne_of_not_mem (Ne.symm hc) (ih (.head _))
      · exact ih (.tail _ h)

theorem isStep_of_mem_steps {text p : List Char} (h : p ∈ steps text) : IsStep p := by
  obtain ⟨hp, hstep⟩ := List.mem_filter.mp h
  obtain ⟨hnil, hpoint⟩ := of_decide_eq_true hstep
  exact ⟨hnil, hpoint, undivided_of_mem_pieces hp⟩

/-- A text without slashes is one piece, and a slash ends it. -/
theorem pieces_of_undivided {p : List Char} (h : '/' ∉ p) :
    pieces p = [p] ∧ ∀ rest, pieces (p ++ '/' :: rest) = p :: pieces rest := by
  induction p with
  | nil => exact ⟨rfl, pieces_slash⟩
  | cons c p ih =>
    have hc : c ≠ '/' := Ne.symm (List.ne_of_not_mem_cons h)
    obtain ⟨hself, hslash⟩ := ih (List.not_mem_of_not_mem_cons h)
    exact ⟨pieces_cons hc hself, fun rest => pieces_cons hc (hslash rest)⟩

theorem filter_step {p : List Char} (h : IsStep p) (more : List (List Char)) :
    (p :: more).filter (fun p => p ≠ [] ∧ p ≠ ['.']) =
      p :: more.filter (fun p => p ≠ [] ∧ p ≠ ['.']) :=
  List.filter_cons_of_pos (decide_eq_true ⟨h.ne_nil, h.ne_point⟩)

/-- Steps with slashes between them have just these steps. -/
theorem steps_joined {ss : List (List Char)} (h : ∀ p ∈ ss, IsStep p) : steps (joined ss) = ss := by
  -- By induction on the steps. The first one ends with the text or with the slash behind it.
  induction ss with
  | nil => rfl
  | cons p rest ih =>
    have hp : IsStep p := h p (.head _)
    have hrest := ih fun q hq => h q (.tail _ hq)
    cases rest with
    | nil =>
      show (pieces p).filter _ = [p]
      rw [(pieces_of_undivided hp.undivided).1, filter_step hp]
      rfl
    | cons q more =>
      show (pieces (p ++ '/' :: joined (q :: more))).filter _ = _
      rw [(pieces_of_undivided hp.undivided).2, filter_step hp]
      exact congrArg (p :: ·) hrest

theorem steps_slash (rest : List Char) : steps ('/' :: rest) = steps rest := by
  rw [steps, pieces_slash]
  exact List.filter_cons_of_neg (by simp)

/-- The text of some steps does not begin with a slash. -/
theorem head_joined {ss : List (List Char)} (h : ∀ p ∈ ss, IsStep p) :
    joined ss = [] ∨ ∃ c rest, joined ss = c :: rest ∧ c ≠ '/' := by
  cases ss with
  | nil => exact .inl rfl
  | cons p rest =>
    obtain ⟨hne, -, hslash⟩ := h p (.head _)
    obtain ⟨c, p, rfl⟩ := List.exists_cons_of_ne_nil hne
    have hc : c ≠ '/' := Ne.symm (List.ne_of_not_mem_cons hslash)
    cases rest with
    | nil => exact .inr ⟨c, p, rfl, hc⟩
    | cons q more => exact .inr ⟨c, p ++ '/' :: joined (q :: more), rfl, hc⟩

theorem root_cases (text : List Char) :
    root text = [] ∨ root text = ['/'] ∨ root text = ['/', '/'] := by
  unfold root
  split
  · exact .inr (.inl rfl)
  · exact .inr (.inr rfl)
  · exact .inr (.inl rfl)
  · exact .inl rfl

/-- A text that does not begin with a slash keeps the root that is put in front of it, and the root
has no steps. -/
theorem root_append {r text : List Char} (hr : r = [] ∨ r = ['/'] ∨ r = ['/', '/'])
    (h : text = [] ∨ ∃ c rest, text = c :: rest ∧ c ≠ '/') :
    root (r ++ text) = r ∧ steps (r ++ text) = steps text := by
  constructor
  · obtain rfl | ⟨c, rest, rfl, hc⟩ := h
    · obtain rfl | rfl | rfl := hr <;> rfl
    · -- Which root it is depends on where the slashes end, and that is before `c`.
      obtain rfl | rfl | rfl := hr <;> simp [root, hc]
  · obtain rfl | rfl | rfl := hr
    · rfl
    · exact steps_slash text
    · exact (steps_slash _).trans (steps_slash text)

theorem normal_normal (text : List Char) : normal (normal text) = normal text := by
  have hsteps : ∀ p ∈ steps text, IsStep p := fun p hp => isStep_of_mem_steps hp
  by_cases hempty : root text ++ joined (steps text) = []
  · -- The path that has no root and no steps is written as a point, which is no step either.
    have hpoint : normal text = ['.'] := if_pos hempty
    rw [hpoint]
    rfl
  · have hwritten : normal text = root text ++ joined (steps text) := if_neg hempty
    obtain ⟨hroot, hsame⟩ := root_append (root_cases text) (head_joined hsteps)
    calc normal (normal text)
        = normal (root text ++ joined (steps text)) := by rw [hwritten]
      _ = root text ++ joined (steps text) := by
        unfold normal
        rw [hroot, hsame, steps_joined hsteps, if_neg hempty]
      _ = normal text := hwritten.symm

end RequestWindows.Path
