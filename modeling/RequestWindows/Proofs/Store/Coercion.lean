import Mathlib.Data.List.Forall2
import RequestWindows.Proofs.Store.Columns

namespace RequestWindows

namespace Dimension

/-- The dimension whose column a binding is for, if it has a value. -/
def filledBy : String × Json → Option Dimension
  | (_, .null) => none
  | (name, _) => ofName? name

/-- Whether a binding has a bearing on the columns. -/
def counts (b : String × Json) : Bool := (filledBy b).isSome

theorem ofBinding_eq (b : String × Json) :
    ofBinding b.1 b.2 = match filledBy b with
      | none => .ok none
      | some d => (d.toColumn b.2).map fun value => some (d, value) := by
  obtain ⟨name, v⟩ := b
  cases v with
  | null => rfl
  | _ => exact ofBinding_of_ne_null nofun

theorem name_of_filledBy {b : String × Json} {d : Dimension} (h : filledBy b = some d) :
    b.1 = d.name := by
  obtain ⟨name, v⟩ := b
  cases v with
  | null => cases h
  | _ => exact (name_of_ofName? h).symm

theorem toInteger_eq_infinite_iff {d : Dimension} {v : Json} :
    d.toInteger v = .error .infinite ↔ ∃ negative, v = .float (.infinite negative) := by
  constructor
  · intro h
    cases v with
    | float x =>
      cases x with
      | infinite negative => exact ⟨negative, rfl⟩
      | nan => cases h
      | finite _ _ _ _ => cases h
    | str s =>
      change ((readInt s.toList).map Except.ok).getD _ = _ at h
      cases hn : readInt s.toList with
      | none => rw [hn] at h; cases h
      | some n => rw [hn] at h; cases h
    | _ => cases h
  · rintro ⟨negative, rfl⟩
    rfl

/-- A value breaks off coercion, and is not merely refused, if it is an infinite number where an
integer is needed. -/
theorem toColumn_eq_infinite_iff {d : Dimension} {v : Json} :
    d.toColumn v = .error .infinite ↔
      d.isInteger = true ∧ ∃ negative, v = .float (.infinite negative) := by
  unfold toColumn
  by_cases hint : d.isInteger = true
  · rw [if_pos hint, ← toInteger_eq_infinite_iff (d := d)]
    cases d.toInteger v with
    | error e => simp [hint, Except.map]
    | ok n => simp [Except.map]
  · rw [if_neg hint]
    split <;> simp [hint]

end Dimension

/-- The value that a column value is among the bindings of an event. -/
def ColumnValue.toJson : ColumnValue → Json
  | .text s => .str s
  | .int n => .int n

/-- A column value as the binding of its dimension. -/
def toBinding (p : Dimension × ColumnValue) : String × Json := (p.1.name, p.2.toJson)

/-- Whether a binding fills the column of a dimension with a value. -/
def Fills (b : String × Json) (p : Dimension × ColumnValue) : Prop :=
  Dimension.filledBy b = some p.1 ∧ p.1.toColumn b.2 = .ok p.2

open Dimension

theorem filledBy_toBinding (p : Dimension × ColumnValue) : filledBy (toBinding p) = some p.1 := by
  obtain ⟨d, value⟩ := p
  cases value <;> exact ofName?_name d

/-- A value of the kind that a column holds fills the column unchanged. -/
theorem fills_toBinding {p : Dimension × ColumnValue} (h : p.1.Admits p.2) :
    Fills (toBinding p) p := by
  refine ⟨filledBy_toBinding p, ?_⟩
  obtain ⟨d, value⟩ := p
  unfold toColumn
  cases value with
  | text s =>
    change d.isInteger = false at h
    rw [h]
    rfl
  | int n =>
    change d.isInteger = true at h
    rw [h]
    rfl

section Bindings

variable {bindings : List (String × Json)} {b : String × Json} {rest : List (String × Json)}

theorem coerceDimensions_cons_of_none (h : filledBy b = none) :
    coerceDimensions (b :: rest) = coerceDimensions rest := by
  have hb : Dimension.ofBinding b.1 b.2 = .ok none := by rw [ofBinding_eq, h]
  calc coerceDimensions (b :: rest)
      = (coerceDimensions rest >>= fun more => pure more) := by
        rw [coerceDimensions, hb]
        rfl
    _ = coerceDimensions rest := bind_pure _

theorem coerceDimensions_cons_of_some {d : Dimension} (h : filledBy b = some d) :
    coerceDimensions (b :: rest) =
      (d.toColumn b.2).bind fun value => (coerceDimensions rest).map ((d, value) :: ·) := by
  have hb : Dimension.ofBinding b.1 b.2 = (d.toColumn b.2).map fun value => some (d, value) := by
    rw [ofBinding_eq, h]
  rw [coerceDimensions, hb]
  cases d.toColumn b.2 with
  | error e => rfl
  | ok value => cases coerceDimensions rest <;> rfl

theorem coerceDimensions_cons_eq_ok_iff {d : Dimension} (h : filledBy b = some d)
    {values : List (Dimension × ColumnValue)} :
    coerceDimensions (b :: rest) = .ok values ↔
      ∃ value more, d.toColumn b.2 = .ok value ∧ coerceDimensions rest = .ok more ∧
        values = (d, value) :: more := by
  rw [coerceDimensions_cons_of_some h]
  cases d.toColumn b.2 with
  | error e => simp [Except.bind]
  | ok value =>
    cases coerceDimensions rest with
    | error e => simp [Except.bind, Except.map]
    | ok more => simp [Except.bind, Except.map, eq_comm]

theorem filter_counts_cons_of_none (h : filledBy b = none) :
    (b :: rest).filter counts = rest.filter counts :=
  List.filter_cons_of_neg (by simp [counts, h])

theorem filter_counts_cons_of_some {d : Dimension} (h : filledBy b = some d) :
    (b :: rest).filter counts = b :: rest.filter counts :=
  List.filter_cons_of_pos (by simp [counts, h])

/-- Bindings that fill no column change nothing, wherever they stand. -/
theorem coerceDimensions_filter_counts (bindings : List (String × Json)) :
    coerceDimensions (bindings.filter counts) = coerceDimensions bindings := by
  induction bindings with
  | nil => rfl
  | cons b rest ih =>
    cases h : filledBy b with
    | none => rw [filter_counts_cons_of_none h, coerceDimensions_cons_of_none h, ih]
    | some d =>
      rw [filter_counts_cons_of_some h, coerceDimensions_cons_of_some h,
        coerceDimensions_cons_of_some h, ih]

theorem coerceDimensions_append {before after : List (String × Json)}
    {values : List (Dimension × ColumnValue)} (h : coerceDimensions before = .ok values) :
    coerceDimensions (before ++ after) = (coerceDimensions after).map (values ++ ·) := by
  induction before generalizing values with
  | nil =>
    cases h
    cases hafter : coerceDimensions after <;> rw [List.nil_append, hafter] <;> rfl
  | cons b rest ih =>
    rw [List.cons_append]
    cases hb : filledBy b with
    | none =>
      rw [coerceDimensions_cons_of_none hb] at h ⊢
      exact ih h
    | some d =>
      obtain ⟨value, more, hvalue, hmore, rfl⟩ := (coerceDimensions_cons_eq_ok_iff hb).mp h
      rw [coerceDimensions_cons_of_some hb, hvalue, ih hmore]
      cases coerceDimensions after <;> rfl

/-- Coercion succeeds with some values exactly if these are what the bindings that count fill their
columns with, one after another. -/
theorem coerceDimensions_eq_ok_iff {values : List (Dimension × ColumnValue)} :
    coerceDimensions bindings = .ok values ↔
      List.Forall₂ Fills (bindings.filter counts) values := by
  induction bindings generalizing values with
  | nil =>
    show Except.ok [] = Except.ok values ↔ List.Forall₂ Fills [] values
    rw [List.forall₂_nil_left_iff, Except.ok.injEq, eq_comm]
  | cons b rest ih =>
    cases h : filledBy b with
    | none => rw [filter_counts_cons_of_none h, coerceDimensions_cons_of_none h, ih]
    | some d =>
      rw [filter_counts_cons_of_some h, coerceDimensions_cons_eq_ok_iff h,
        List.forall₂_cons_left_iff]
      -- The head fills one column, and the induction hypothesis covers the columns after it.
      constructor
      · rintro ⟨value, more, hvalue, hmore, rfl⟩
        exact ⟨(d, value), more, ⟨h, hvalue⟩, ih.mp hmore, rfl⟩
      · rintro ⟨⟨e, value⟩, more, ⟨he, hvalue⟩, hmore, rfl⟩
        obtain rfl : d = e := Option.some.inj (h.symm.trans he)
        exact ⟨value, more, hvalue, ih.mpr hmore, rfl⟩

/-- The first binding that does not fit its column decides the error. -/
theorem coerceDimensions_eq_error_iff {e : CoercionError} :
    coerceDimensions bindings = .error e ↔
      ∃ before b after d, bindings = before ++ b :: after ∧
        (∃ values, coerceDimensions before = .ok values) ∧
        filledBy b = some d ∧ d.toColumn b.2 = .error e := by
  constructor
  · intro herror
    induction bindings with
    | nil => cases herror
    | cons b rest ih =>
      -- A head that does not fail leaves the error to the bindings after it.
      have hlater : ∀ values, coerceDimensions [b] = .ok values →
          ∃ before b' after d, b :: rest = before ++ b' :: after ∧
            (∃ values, coerceDimensions before = .ok values) ∧
            filledBy b' = some d ∧ d.toColumn b'.2 = .error e := by
        intro values hfirst
        rw [← List.singleton_append, coerceDimensions_append hfirst] at herror
        have hrest : coerceDimensions rest = .error e := by
          cases hrest : coerceDimensions rest with
          | error e' => rw [hrest] at herror; exact herror
          | ok more => rw [hrest] at herror; cases herror
        obtain ⟨before, b', after, d, rfl, ⟨more, hbefore⟩, hfails⟩ := ih hrest
        refine ⟨b :: before, b', after, d, rfl, ⟨values ++ more, ?_⟩, hfails⟩
        rw [← List.singleton_append, coerceDimensions_append hfirst, hbefore]
        rfl
      cases h : filledBy b with
      | none => exact hlater [] (coerceDimensions_cons_of_none h)
      | some d =>
        cases hvalue : d.toColumn b.2 with
        | error e' =>
          rw [coerceDimensions_cons_of_some h, hvalue] at herror
          cases herror
          exact ⟨[], b, rest, d, rfl, ⟨[], rfl⟩, h, hvalue⟩
        | ok value =>
          apply hlater [(d, value)]
          rw [coerceDimensions_cons_of_some h, hvalue]
          rfl
  · rintro ⟨before, b, after, d, rfl, ⟨values, hbefore⟩, hb, hfails⟩
    rw [coerceDimensions_append hbefore, coerceDimensions_cons_of_some hb, hfails]
    rfl

/-- The dimensions that values are for are those that the bindings name, in their order. -/
theorem keys_of_fills {values : List (Dimension × ColumnValue)}
    (h : List.Forall₂ Fills (bindings.filter counts) values) :
    values.map Prod.fst = bindings.filterMap filledBy := by
  induction bindings generalizing values with
  | nil =>
    cases h
    rfl
  | cons b rest ih =>
    cases hb : filledBy b with
    | none =>
      rw [filter_counts_cons_of_none hb] at h
      rw [List.filterMap_cons_none hb, ih h]
    | some d =>
      rw [filter_counts_cons_of_some hb] at h
      obtain ⟨p, more, ⟨hp, -⟩, hmore, rfl⟩ := List.forall₂_cons_left_iff.mp h
      rw [List.filterMap_cons_some hb, List.map_cons, ih hmore, Option.some.inj (hp.symm.trans hb)]

/-- Bindings with distinct names are for distinct dimensions. -/
theorem nodup_filledBy (h : (bindings.map Prod.fst).Nodup) :
    (bindings.filterMap filledBy).Nodup := by
  induction bindings with
  | nil => exact List.nodup_nil
  | cons b rest ih =>
    rw [List.map_cons, List.nodup_cons] at h
    cases hb : filledBy b with
    | none =>
      rw [List.filterMap_cons_none hb]
      exact ih h.2
    | some d =>
      rw [List.filterMap_cons_some hb, List.nodup_cons]
      refine ⟨fun hmem => h.1 ?_, ih h.2⟩
      obtain ⟨b', hb', hsame⟩ := List.mem_filterMap.mp hmem
      have hname : b'.1 = b.1 := (name_of_filledBy hsame).trans (name_of_filledBy hb).symm
      exact List.mem_map.mpr ⟨b', hb', hname⟩

theorem admits_of_fills {values : List (Dimension × ColumnValue)}
    (h : List.Forall₂ Fills bindings values) : ∀ p ∈ values, p.1.Admits p.2 := by
  induction h with
  | nil => simp
  | cons hfills _ ih => exact List.forall_mem_cons.mpr ⟨admits_of_toColumn hfills.2, ih⟩

/-- Values of the right kinds are their own coercion. -/
theorem coerceDimensions_map_toBinding {values : List (Dimension × ColumnValue)}
    (h : ∀ p ∈ values, p.1.Admits p.2) : coerceDimensions (values.map toBinding) = .ok values := by
  apply coerceDimensions_eq_ok_iff.mpr
  have hall : (values.map toBinding).filter counts = values.map toBinding := by
    apply List.filter_eq_self.mpr
    intro b hb
    obtain ⟨p, -, rfl⟩ := List.mem_map.mp hb
    simp [counts, filledBy_toBinding]
  rw [hall, List.forall₂_map_left_iff, List.forall₂_same]
  exact fun p hp => fills_toBinding (h p hp)

/-- Whether coercion comes upon an infinite number for a column of integers before any other value
that does not fit. -/
def MeetsInfinity (bindings : List (String × Json)) : Prop :=
  ∃ (before : List (String × Json)) (d : Dimension) (negative : Bool)
    (after : List (String × Json)),
    bindings = before ++ (d.name, .float (.infinite negative)) :: after ∧ d.isInteger = true ∧
      ∃ values, coerceDimensions before = .ok values

theorem coerceDimensions_eq_infinite_iff :
    coerceDimensions bindings = .error .infinite ↔ MeetsInfinity bindings := by
  rw [coerceDimensions_eq_error_iff]
  constructor
  · rintro ⟨before, ⟨name, v⟩, after, d, hsplit, hbefore, hb, hfails⟩
    obtain ⟨hint, negative, hv⟩ := toColumn_eq_infinite_iff.mp hfails
    obtain rfl : v = .float (.infinite negative) := hv
    obtain rfl : name = d.name := name_of_filledBy hb
    exact ⟨before, d, negative, after, hsplit, hint, hbefore⟩
  · rintro ⟨before, d, negative, after, hsplit, hint, hbefore⟩
    refine ⟨before, (d.name, .float (.infinite negative)), after, d, hsplit, hbefore,
      ofName?_name d, ?_⟩
    exact toColumn_eq_infinite_iff.mpr ⟨hint, negative, rfl⟩

/-- Coercion of bindings with distinct names is a projection: onto the dimensions that they name and
give a value, in their order, with integers for the columns of integers and texts for the others.
Its result is its own coercion, and what names no dimension or has no value makes no difference to
the outcome. It fails as is said of it, with the error of no integer, unless it meets infinity. -/
theorem coercion_projects (hnames : (bindings.map Prod.fst).Nodup) :
    (∀ values, coerceDimensions bindings = .ok values →
      values.map Prod.fst = bindings.filterMap filledBy ∧ (values.map Prod.fst).Nodup ∧
        (∀ p ∈ values, p.1.Admits p.2) ∧
        coerceDimensions (values.map toBinding) = .ok values) ∧
      (∀ others : List (String × Json), others.filter counts = bindings.filter counts →
        coerceDimensions others = coerceDimensions bindings) ∧
      (((∃ values, coerceDimensions bindings = .ok values) ∨
        ∃ d shown, coerceDimensions bindings = .error (.notInteger d shown)) ↔
          ¬MeetsInfinity bindings) := by
  refine ⟨?_, ?_, ?_⟩
  · intro values hok
    have hfills := coerceDimensions_eq_ok_iff.mp hok
    have hkeys := keys_of_fills hfills
    have hadmits := admits_of_fills hfills
    refine ⟨hkeys, ?_, hadmits, coerceDimensions_map_toBinding hadmits⟩
    rw [hkeys]
    exact nodup_filledBy hnames
  · intro others hsame
    calc coerceDimensions others
        = coerceDimensions (others.filter counts) := (coerceDimensions_filter_counts others).symm
      _ = coerceDimensions (bindings.filter counts) := by rw [hsame]
      _ = coerceDimensions bindings := coerceDimensions_filter_counts bindings
  · rw [← coerceDimensions_eq_infinite_iff]
    cases coerceDimensions bindings with
    | ok values => simp
    | error e => cases e <;> simp

end Bindings

/-- A text of digits, a name that no column has, a missing value and a number where a text is
needed. -/
theorem coercion_of_four_kinds :
    ([("item_count", Json.str " 1_0 "), ("color", .int 3), ("exception", .null),
        ("operation", .int 7)].map Prod.fst).Nodup ∧
      coerceDimensions [("item_count", .str " 1_0 "), ("color", .int 3), ("exception", .null),
        ("operation", .int 7)] = .ok [(.itemCount, .int 10), (.operation, .text "7")] ∧
      coerceDimensions [("item_count", .int 10), ("operation", .str "7")] =
        .ok [(.itemCount, .int 10), (.operation, .text "7")] := by
  have hnames : ([("item_count", Json.str " 1_0 "), ("color", .int 3), ("exception", .null),
      ("operation", .int 7)].map Prod.fst).Nodup := by decide
  have hok : coerceDimensions [("item_count", .str " 1_0 "), ("color", .int 3),
      ("exception", .null), ("operation", .int 7)] =
        .ok [(.itemCount, .int 10), (.operation, .text "7")] := by rfl
  obtain ⟨-, -, -, hfixed⟩ := (coercion_projects hnames).1 _ hok
  exact ⟨hnames, hok, hfixed⟩

/-- An infinite number for a column of integers is not refused as other values are. -/
theorem infinite_count_is_not_refused :
    ¬∀ bindings : List (String × Json), (bindings.map Prod.fst).Nodup →
      (∃ values, coerceDimensions bindings = .ok values) ∨
        ∃ d shown, coerceDimensions bindings = .error (.notInteger d shown) := by
  intro h
  have hinfinite :
      coerceDimensions [("response_code", .float (.infinite false))] = .error .infinite := rfl
  obtain ⟨values, hok⟩ | ⟨d, shown, hrefused⟩ :=
    h [("response_code", .float (.infinite false))] (by decide)
  · rw [hinfinite] at hok
    cases hok
  · rw [hinfinite] at hrefused
    cases hrefused

end RequestWindows
