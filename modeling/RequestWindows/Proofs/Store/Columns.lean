import RequestWindows.Proofs.Store.Feed
import RequestWindows.Proofs.Text.ByteOrder

namespace RequestWindows

namespace Dimension

/-- Whether a value is of the kind that the column of a dimension holds. -/
def Admits (d : Dimension) : ColumnValue → Prop
  | .text _ => d.isInteger = false
  | .int _ => d.isInteger = true

/-- What a binding gives the column of a dimension. A missing value gives it nothing. -/
def given (d : Dimension) : String × Json → Option ColumnValue
  | (_, .null) => none
  | (name, v) => if name = d.name then (d.toColumn v).toOption else none

theorem given_of_ne_null {d : Dimension} {name : String} {v : Json} (hv : v ≠ .null) :
    d.given (name, v) = if name = d.name then (d.toColumn v).toOption else none := by
  cases v with
  | null => exact absurd rfl hv
  | _ => rfl

theorem ofBinding_of_ne_null {name : String} {v : Json} (hv : v ≠ .null) :
    ofBinding name v = match ofName? name with
      | none => .ok none
      | some d => (d.toColumn v).map fun value => some (d, value) := by
  cases v with
  | null => exact absurd rfl hv
  | _ => unfold ofBinding; cases ofName? name <;> rfl

theorem name_of_ofName? {name : String} {d : Dimension} (h : ofName? name = some d) :
    d.name = name := by
  simpa using List.find?_some h

theorem admits_of_toColumn {d : Dimension} {v : Json} {value : ColumnValue}
    (h : d.toColumn v = .ok value) : d.Admits value := by
  unfold toColumn at h
  split at h
  · next hint =>
    cases hv : d.toInteger v with
    | error e => rw [hv] at h; cases h
    | ok n =>
      rw [hv] at h
      cases h
      exact hint
  · next hint =>
    split at h
    · cases h
      exact Bool.eq_false_iff.mpr hint
    · cases h

/-- A binding that fits fills the column of its dimension, if it has one, and no other. -/
theorem given_of_ofBinding {name : String} {v : Json} {filled : Option (Dimension × ColumnValue)}
    (h : ofBinding name v = .ok filled) :
    (∀ p ∈ filled, p.1.Admits p.2) ∧
      ∀ d : Dimension, d.given (name, v) =
        filled.bind fun p => if p.1 = d then some p.2 else none := by
  by_cases hv : v = .null
  · subst hv
    cases h
    exact ⟨by simp, fun d => rfl⟩
  rw [ofBinding_of_ne_null hv] at h
  simp only [given_of_ne_null hv]
  cases hname : ofName? name with
  | none =>
    rw [hname] at h
    cases h
    refine ⟨by simp, fun d => if_neg ?_⟩
    rintro rfl
    rw [ofName?_name] at hname
    cases hname
  | some e =>
    obtain rfl := name_of_ofName? hname
    rw [hname] at h
    change (e.toColumn v).map (fun value => some (e, value)) = .ok filled at h
    cases hcol : e.toColumn v with
    | error err =>
      rw [hcol] at h
      cases h
    | ok value =>
      rw [hcol] at h
      cases h
      constructor
      · intro p hp
        cases hp
        exact admits_of_toColumn hcol
      · intro d
        rw [Option.bind_some]
        by_cases hd : e = d
        · subst hd
          rw [if_pos rfl, if_pos rfl, hcol]
          rfl
        · rw [if_neg hd, if_neg]
          intro hnames
          rw [hnames, ofName?_name] at hname
          exact hd (Option.some.inj hname).symm

end Dimension

/-- The values that some bindings give the column of a dimension are those of the columns they
fill. -/
theorem given_of_coerceDimensions {bindings : List (String × Json)}
    {values : List (Dimension × ColumnValue)} (h : coerceDimensions bindings = .ok values) :
    (∀ p ∈ values, p.1.Admits p.2) ∧
      ∀ d : Dimension, bindings.filterMap d.given =
        values.filterMap fun p => if p.1 = d then some p.2 else none := by
  induction bindings generalizing values with
  | nil =>
    cases h
    exact ⟨by simp, fun d => rfl⟩
  | cons b rest ih =>
    obtain ⟨name, v⟩ := b
    rw [coerceDimensions] at h
    cases hb : Dimension.ofBinding name v with
    | error e => rw [hb] at h; cases h
    | ok filled =>
      rw [hb] at h
      cases hr : coerceDimensions rest with
      | error e => rw [hr] at h; cases h
      | ok more =>
        rw [hr] at h
        cases h
        obtain ⟨hadmits, hgiven⟩ := Dimension.given_of_ofBinding hb
        obtain ⟨hadmits', hgiven'⟩ := ih hr
        constructor
        · intro p hp
          rcases List.mem_append.mp hp with hp | hp
          · exact hadmits p (Option.mem_toList.mp hp)
          · exact hadmits' p hp
        · intro d
          rw [List.filterMap_cons, hgiven, hgiven', List.filterMap_append]
          cases filled with
          | none => rfl
          | some p =>
            simp only [Option.bind_some, Option.toList_some, List.filterMap_cons,
              List.filterMap_nil]
            split <;> rfl

namespace Columns

/-- The value in the column of a dimension. -/
def value? (c : Columns) : Dimension → Option ColumnValue
  | .operation => c.operation.map .text
  | .indices => c.indices.map .text
  | .responseCode => c.responseCode.map .int
  | .exception => c.exception.map .text
  | .itemCount => c.itemCount.map .int

@[simp] theorem value?_empty (d : Dimension) : empty.value? d = none := by cases d <;> rfl

theorem value?_set {d : Dimension} {v : ColumnValue} (h : d.Admits v) (c : Columns)
    (e : Dimension) : (c.set (d, v)).value? e = if d = e then some v else c.value? e := by
  cases v with
  | text s =>
    cases d with
    | operation | indices | exception => cases e <;> rfl
    | responseCode | itemCount => cases h
  | int n =>
    cases d with
    | operation | indices | exception => cases h
    | responseCode | itemCount => cases e <;> rfl

/-- Of several values for one dimension the last one stays. -/
theorem value?_foldl_set {values : List (Dimension × ColumnValue)}
    (h : ∀ p ∈ values, p.1.Admits p.2) (c : Columns) (d : Dimension) :
    (values.foldl set c).value? d =
      ((values.filterMap fun p => if p.1 = d then some p.2 else none).getLast?).or
        (c.value? d) := by
  induction values generalizing c with
  | nil => rfl
  | cons p rest ih =>
    rw [List.foldl_cons, ih (fun q hq => h q (.tail _ hq)), value?_set (h p (.head _)),
      List.filterMap_cons]
    by_cases hp : p.1 = d
    · simp only [if_pos hp, List.getLast?_cons]
      cases (List.filterMap _ rest).getLast? <;> rfl
    · simp only [if_neg hp]

end Columns

/-- The row that some dimensions and a time make, if they fit the columns. -/
def rowOf (time : Int) (dimensions : List (String × Json)) : Except StoreError HalfRow := do
  let values ← (coerceDimensions dimensions).mapError .coercion
  HalfRow.make (.ofList values) time

theorem HalfRow.make_eq_ok {columns : Columns} {time : Int} {row : HalfRow}
    (h : HalfRow.make columns time = .ok row) : row.columns = columns ∧ row.time = time := by
  unfold HalfRow.make at h
  split at h
  · split at h
    · cases h
      exact ⟨rfl, rfl⟩
    · cases h
  · cases h

/-- A row has in each column what the last binding of its dimension gives, and nothing if no binding
gives anything. -/
theorem value?_of_rowOf {time : Int} {dimensions : List (String × Json)} {row : HalfRow}
    (h : rowOf time dimensions = .ok row) :
    row.time = time ∧
      ∀ d : Dimension, row.columns.value? d = (dimensions.filterMap d.given).getLast? := by
  unfold rowOf at h
  cases hc : coerceDimensions dimensions with
  | error e => rw [hc] at h; cases h
  | ok values =>
    rw [hc] at h
    obtain ⟨hcolumns, htime⟩ := HalfRow.make_eq_ok h
    obtain ⟨hadmits, hgiven⟩ := given_of_coerceDimensions hc
    refine ⟨htime, fun d => ?_⟩
    rw [hcolumns, hgiven, Columns.ofList, Columns.value?_foldl_set hadmits, Columns.value?_empty,
      Option.or_none]

/-- How the values of one column compare: integers as such, texts by the bytes that encode them. -/
def ColumnValue.AtMost : ColumnValue → ColumnValue → Prop
  | .text a, .text b => Text.encodeUtf8 a.toList ≤ Text.encodeUtf8 b.toList
  | .int m, .int n => m ≤ n
  | _, _ => False

/-- Whether a value is the greatest of some values, or is missing where there are none. -/
def IsGreatestOf (values : List ColumnValue) : Option ColumnValue → Prop
  | none => values = []
  | some v => v ∈ values ∧ ∀ u ∈ values, u.AtMost v

/-- The greater of two values of one kind is the greatest of those that are there. -/
theorem isGreatestOf_greater? {α : Type} [LT α] [DecidableLT α] {f : α → ColumnValue}
    (hf : ∀ a b, (f a).AtMost (f b) ↔ ¬b < a) (hasymm : ∀ a b : α, a < b → ¬b < a)
    (a b : Option α) :
    IsGreatestOf ([a.map f, b.map f].filterMap id) ((greater? a b).map f) := by
  have hrefl : ∀ a, (f a).AtMost (f a) := fun a => (hf a a).mpr fun h => hasymm a a h h
  cases a with
  | none =>
    cases b with
    | none => rfl
    | some b => simpa [greater?, IsGreatestOf] using hrefl b
  | some a =>
    cases b with
    | none => simpa [greater?, IsGreatestOf] using hrefl a
    | some b =>
      by_cases hab : a < b
      · simpa [greater?, IsGreatestOf, hab] using ⟨(hf a b).mpr (hasymm a b hab), hrefl b⟩
      · simpa [greater?, IsGreatestOf, hab] using ⟨hrefl a, (hf b a).mpr hab⟩

/-- Each column of the union of two rows has the greatest of their values. -/
theorem isGreatestOf_merge (c c' : Columns) (d : Dimension) :
    IsGreatestOf ([c.value? d, c'.value? d].filterMap id) ((c.merge c').value? d) := by
  have htext : ∀ a b : Option String,
      IsGreatestOf ([a.map .text, b.map .text].filterMap id) ((greater? a b).map .text) := by
    refine isGreatestOf_greater? (fun a b => ?_) fun a b h => String.lt_asymm h
    rw [Text.lt_iff_encodeUtf8_lt]
    exact Iff.rfl
  have hint : ∀ m n : Option Int,
      IsGreatestOf ([m.map .int, n.map .int].filterMap id) ((greater? m n).map .int) :=
    isGreatestOf_greater? (fun m n => Int.not_lt.symm) fun m n => Int.lt_asymm
  cases d
  · exact htext c.operation c'.operation
  · exact htext c.indices c'.indices
  · exact hint c.responseCode c'.responseCode
  · exact htext c.exception c'.exception
  · exact hint c.itemCount c'.itemCount

end RequestWindows
