import RequestWindows.Proofs.Event.Line
import RequestWindows.Proofs.Reader.BadEntry

namespace RequestWindows

/-- Whether a dimension's value can be stored: for an integer column, it is not an integer at all,
so that the event is dropped, or its integer fits the column. -/
def Scalar.fitsOrFails (name : String) (v : Scalar) : Bool :=
  (Dimension.ofName? name).all fun d => !d.isInteger ||
    match d.toInteger v.toJson with
    | .ok n => (Columns.empty.set (d, .int n)).fits
    | .error (.notInteger _ _) => true
    | .error .infinite => false

/-- An event of which nothing is lost. -/
structure Event.Lossless (e : Event) : Prop where
  time : e.emittedAt < Nat.pow 2 63
  readable : ∀ d ∈ e.dimensions.entries, d.2.Readable
  columns : ∀ d ∈ e.dimensions.entries, d.2.fitsOrFails d.1.lossy = true

instance (v : Scalar) : Decidable v.Readable :=
  match v with
  | .text _ => inferInstanceAs (Decidable True)
  | .int _ => inferInstanceAs (Decidable (_ ≤ _))
  | .float _ => inferInstanceAs (Decidable (_ = _))

instance (e : Event) : Decidable e.Lossless :=
  decidable_of_iff
    (e.emittedAt < Nat.pow 2 63 ∧ (∀ d ∈ e.dimensions.entries, d.2.Readable) ∧
      ∀ d ∈ e.dimensions.entries, d.2.fitsOrFails d.1.lossy = true)
    ⟨fun h => ⟨h.1, h.2.1, h.2.2⟩, fun h => ⟨h.time, h.readable, h.columns⟩⟩

namespace Columns

theorem fits_set {c : Columns} {x : Dimension × ColumnValue} (hc : c.fits = true)
    (hx : (empty.set x).fits = true) : (c.set x).fits = true := by
  unfold fits at hc hx ⊢
  rw [Bool.and_eq_true] at hc hx ⊢
  obtain ⟨d, v⟩ := x
  cases d <;> cases v
  case responseCode.int n => exact ⟨hx.1, hc.2⟩
  case itemCount.int n => exact ⟨hc.1, hx.2⟩
  all_goals exact hc

theorem fits_ofList {values : List (Dimension × ColumnValue)}
    (h : ∀ x ∈ values, (empty.set x).fits = true) : (ofList values).fits = true := by
  have hfold : ∀ c : Columns, c.fits = true → (values.foldl set c).fits = true := by
    induction values with
    | nil => exact fun c hc => hc
    | cons x rest ih =>
      intro c hc
      exact ih (fun y hy => h y (.tail _ hy)) _ (fits_set hc (h x (.head _)))
  exact hfold empty rfl

end Columns

section Coercion

theorem ofBinding_of_fitsOrFails {name : String} {v : Scalar} (h : v.fitsOrFails name = true) :
    (∃ d shown, Dimension.ofBinding name v.toJson = .error (.notInteger d shown)) ∨
      ∃ column, Dimension.ofBinding name v.toJson = .ok column ∧
        ∀ x ∈ column, (Columns.empty.set x).fits = true := by
  have hbinding : Dimension.ofBinding name v.toJson =
      match Dimension.ofName? name with
      | none => .ok none
      | some d => (d.toColumn v.toJson).map fun value => some (d, value) := by
    unfold Dimension.ofBinding
    cases v <;> cases Dimension.ofName? name <;> rfl
  rw [hbinding]
  cases hname : Dimension.ofName? name with
  | none => exact Or.inr ⟨none, rfl, fun x hx => nomatch hx⟩
  | some d =>
    simp only
    unfold Scalar.fitsOrFails at h
    rw [hname, Option.all_some] at h
    unfold Dimension.toColumn
    -- Only a whole number can fail to fit. Everything else is stored as a text, if it can be
    -- written at all.
    by_cases hint : d.isInteger = true
    · rw [if_pos hint]
      rw [hint, Bool.not_true, Bool.false_or] at h
      cases hn : d.toInteger v.toJson with
      | ok n =>
        rw [hn] at h
        refine Or.inr ⟨some (d, .int n), rfl, ?_⟩
        intro x hx
        cases hx
        exact h
      | error e =>
        rw [hn] at h
        cases e with
        | notInteger d' shown => exact Or.inl ⟨d', shown, rfl⟩
        | infinite => cases h
    · rw [if_neg hint]
      by_cases hwritable : Dimension.isWritable v.toJson = true
      · rw [if_pos hwritable]
        refine Or.inr ⟨some (d, .text (Dimension.toText v.toJson)), rfl, ?_⟩
        intro x hx
        cases hx
        cases d <;> rfl
      · rw [if_neg hwritable]
        exact Or.inl ⟨d, v.toJson.shown, rfl⟩

theorem coerceDimensions_of_fitsOrFails {entries : List (RawText × Scalar)}
    (h : ∀ d ∈ entries, d.2.fitsOrFails d.1.lossy = true) :
    (∃ d shown, coerceDimensions (entries.map fun d => (d.1.lossy, d.2.toJson)) =
        .error (.notInteger d shown)) ∨
      ∃ values, coerceDimensions (entries.map fun d => (d.1.lossy, d.2.toJson)) = .ok values ∧
        ∀ x ∈ values, (Columns.empty.set x).fits = true := by
  induction entries with
  | nil => exact Or.inr ⟨[], rfl, fun x hx => nomatch hx⟩
  | cons entry rest ih =>
    rw [List.map_cons, coerceDimensions]
    rcases ofBinding_of_fitsOrFails (h entry (.head _)) with
      ⟨d, shown, hfails⟩ | ⟨column, hcolumn, hfits⟩
    · rw [hfails]
      exact Or.inl ⟨d, shown, rfl⟩
    · rw [hcolumn]
      rcases ih fun d hd => h d (.tail _ hd) with ⟨d, shown, hfails⟩ | ⟨values, hvalues, hall⟩
      · rw [hfails]
        exact Or.inl ⟨d, shown, rfl⟩
      · rw [hvalues]
        refine Or.inr ⟨column.toList ++ values, rfl, ?_⟩
        intro x hx
        rcases List.mem_append.mp hx with hx | hx
        · exact hfits x (Option.mem_toList.mp hx)
        · exact hall x hx

end Coercion

namespace Event

variable {e : Event}

theorem Lossless.isReadable (h : e.Lossless) : e.Readable := by
  refine ⟨?_, h.readable⟩
  have hpow : Nat.pow 2 63 < 10 ^ maxDigits := by
    have hnineteen : Nat.pow 2 63 < 10 ^ 19 := by decide
    have hle : 10 ^ 19 ≤ 10 ^ maxDigits := Nat.pow_le_pow_right (by decide) (by decide)
    exact Nat.lt_of_lt_of_le hnineteen hle
  exact (Nat.length_toDigits_le_iff (by decide) (by decide)).mpr (Nat.lt_trans h.time hpow)

/-- An event of which nothing is lost never breaks off a replay. -/
theorem Lossless.not_fatal (h : e.Lossless) : e.isFatal = false := by
  apply Bool.eq_false_iff.mpr
  intro hfatal
  have hcoerced := coerceDimensions_of_fitsOrFails h.columns
  -- A replay breaks off at an infinite number or at a value that does not fit.
  rcases isFatal_iff.mp hfatal with hinfinite | ⟨values, hvalues, hnot⟩
  · rcases hcoerced with ⟨d, shown, hfails⟩ | ⟨values, hvalues, _⟩
    · change coerceDimensions e.bindings = _ at hfails
      rw [hinfinite] at hfails
      cases hfails
    · change coerceDimensions e.bindings = _ at hvalues
      rw [hinfinite] at hvalues
      cases hvalues
  · apply hnot
    rcases hcoerced with ⟨d, shown, hfails⟩ | ⟨values', hvalues', hfits⟩
    · change coerceDimensions e.bindings = _ at hfails
      rw [hvalues] at hfails
      cases hfails
    · change coerceDimensions e.bindings = _ at hvalues'
      rw [hvalues] at hvalues'
      cases hvalues'
      have htime : fitsBits 64 (e.emittedAt : Int) = true := by
        have hlt := h.time
        have hpow : Nat.pow 2 (64 - 1) = Nat.pow 2 63 := rfl
        rw [fitsBits_iff, hpow]
        constructor
        · omega
        · omega
      rw [Columns.fits_ofList hfits, htime]
      rfl

end Event

end RequestWindows
