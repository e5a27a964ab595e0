import RequestWindows.Event.Basic
import RequestWindows.Store.Dimension

/-! The rows of a window: for every correlation id the row last written for each half of the
request. The ids are in ascending order, so tables that hold the same rows are equal
(`Table.ext_get?`). -/
namespace RequestWindows

/-- Whether an integer fits a signed column of this many bits. -/
def fitsBits (bits : Nat) (n : Int) : Bool :=
  -(Nat.pow 2 (bits - 1) : Int) ≤ n && n < (Nat.pow 2 (bits - 1) : Int)

theorem fitsBits_iff {bits : Nat} {n : Int} :
    fitsBits bits n = true ↔
      -(Nat.pow 2 (bits - 1) : Int) ≤ n ∧ n < (Nat.pow 2 (bits - 1) : Int) := by
  simp [fitsBits]

/-- Whether an integer can be handed to a statement at all: it has a signed or an unsigned form of
128 bits. -/
def bindable (n : Int) : Bool := -(Nat.pow 2 127 : Int) ≤ n && n < (Nat.pow 2 128 : Int)

/-- Whether of the two forms of 128 bits an integer can only have the unsigned one. -/
def needsUnsigned (n : Int) : Bool := (Nat.pow 2 127 : Int) ≤ n

/-- The values of a row's dimensions. -/
structure Columns where
  operation : Option String
  indices : Option String
  responseCode : Option Int
  exception : Option String
  itemCount : Option Int
deriving DecidableEq

namespace Columns

/-- A row without dimensions. -/
def empty : Columns := ⟨none, none, none, none, none⟩

/-- Fill one column. A value of the wrong kind leaves it as it was. -/
def set (c : Columns) : Dimension × ColumnValue → Columns
  | (.operation, .text s) => { c with operation := some s }
  | (.indices, .text s) => { c with indices := some s }
  | (.exception, .text s) => { c with exception := some s }
  | (.responseCode, .int n) => { c with responseCode := some n }
  | (.itemCount, .int n) => { c with itemCount := some n }
  | _ => c

/-- The row with the given columns filled. -/
def ofList (values : List (Dimension × ColumnValue)) : Columns := values.foldl set empty

/-- Whether the integers of a row fit their columns. -/
def fits (c : Columns) : Bool := c.responseCode.all (fitsBits 32) && c.itemCount.all (fitsBits 64)

/-- Whether the integers of a row can be handed to a statement. -/
def bindable (c : Columns) : Bool :=
  c.responseCode.all RequestWindows.bindable && c.itemCount.all RequestWindows.bindable

end Columns

structure HalfRow where
  columns : Columns
  time : Int
  fits : (columns.fits && fitsBits 64 time) = true
deriving DecidableEq

/-- The rows of one request, of which there is at least one. -/
structure Halves where
  start : Option HalfRow
  finish : Option HalfRow
  present : (start.isSome || finish.isSome) = true
deriving DecidableEq

namespace Halves

def get? (h : Halves) : Half → Option HalfRow
  | .start => h.start
  | .finish => h.finish

/-- The rows after one half has been written, where there may have been none before. -/
def write (h : Option Halves) (half : Half) (row : HalfRow) : Halves :=
  match half with
  | .start => ⟨some row, h.bind (·.finish), rfl⟩
  | .finish => ⟨h.bind (·.start), some row, by simp⟩

theorem ext_get? {g h : Halves} (e : ∀ half, g.get? half = h.get? half) : g = h := by
  obtain ⟨a, b, _⟩ := g
  obtain ⟨c, d, _⟩ := h
  have hs := e .start
  have hf := e .finish
  simp only [get?] at hs hf
  subst hs hf
  rfl

theorem get?_write (h : Option Halves) (half other : Half) (row : HalfRow) :
    (write h half row).get? other =
      if other = half then some row else h.bind (·.get? other) := by
  cases half <;> cases other <;> cases h <;> rfl

end Halves

/-- The rows of a window by correlation id. -/
structure Table where
  entries : List (String × Halves)
  ascending : entries.Pairwise (·.1 < ·.1)
deriving DecidableEq

namespace Table

/-- A table without rows. -/
def empty : Table := ⟨[], .nil⟩

instance : Inhabited Table := ⟨empty⟩

/-- Change the rows of one id in an ascending list. -/
def alter (id : String) (f : Option Halves → Halves) :
    List (String × Halves) → List (String × Halves)
  | [] => [(id, f none)]
  | e :: rest =>
    if id < e.1 then (id, f none) :: e :: rest
    else if id = e.1 then (id, f (some e.2)) :: rest
    else e :: alter id f rest

theorem mem_keys_alter {id j : String} {f : Option Halves → Halves} {l : List (String × Halves)} :
    j ∈ (alter id f l).map Prod.fst ↔ j = id ∨ j ∈ l.map Prod.fst := by
  induction l with
  | nil => simp [alter]
  | cons e rest ih =>
    rw [alter]
    split
    · simp
    · split
      · next h => subst h; simp
      · rw [List.map_cons, List.mem_cons, ih, List.map_cons, List.mem_cons]
        exact or_left_comm

theorem pairwise_alter (id : String) (f : Option Halves → Halves) {l : List (String × Halves)}
    (h : l.Pairwise (·.1 < ·.1)) : (alter id f l).Pairwise (·.1 < ·.1) := by
  induction l with
  | nil => simp [alter]
  | cons e rest ih =>
    rw [alter]
    split
    · next hlt =>
      refine List.pairwise_cons.2 ⟨fun b hb => ?_, h⟩
      rcases List.mem_cons.1 hb with rfl | hb
      · exact hlt
      · exact String.lt_trans hlt (List.rel_of_pairwise_cons h hb)
    · split
      · next heq =>
        refine List.pairwise_cons.2 ⟨fun b hb => ?_, h.of_cons⟩
        have := List.rel_of_pairwise_cons h hb
        rwa [← heq] at this
      · next hlt hne =>
        refine List.pairwise_cons.2 ⟨fun b hb => ?_, ih h.of_cons⟩
        rcases mem_keys_alter.1 (List.mem_map_of_mem hb) with hb | hb
        · rw [hb]
          exact Std.lt_of_le_of_ne (Std.not_lt.1 hlt) (Ne.symm hne)
        · obtain ⟨c, hc, hcb⟩ := List.mem_map.1 hb
          rw [← hcb]
          exact List.rel_of_pairwise_cons h hc

theorem lookup_eq_none {j : String} {l : List (String × Halves)} (h : ∀ e ∈ l, j < e.1) :
    l.lookup j = none := by
  induction l with
  | nil => rfl
  | cons e rest ih =>
    obtain ⟨c, v⟩ := e
    have hc : j < c := h _ (.head _)
    rw [lookup_cons_eq_ite, if_neg (fun e => String.lt_irrefl j (by rwa [← e] at hc))]
    exact ih fun e he => h e (.tail _ he)

theorem lookup_alter (id j : String) (f : Option Halves → Halves) {l : List (String × Halves)}
    (h : l.Pairwise (·.1 < ·.1)) :
    (alter id f l).lookup j = if j = id then some (f (l.lookup id)) else l.lookup j := by
  induction l with
  | nil => exact lookup_cons_eq_ite j id (f none) []
  | cons e rest ih =>
    obtain ⟨c, v⟩ := e
    rw [alter]
    split
    · next hlt =>
      have hn : ((c, v) :: rest).lookup id = none := lookup_eq_none fun b hb => by
        rcases List.mem_cons.1 hb with rfl | hb
        · exact hlt
        · exact String.lt_trans hlt (List.rel_of_pairwise_cons h hb)
      rw [lookup_cons_eq_ite, hn]
    · split
      · next heq =>
        rw [heq]
        simp only [lookup_cons_eq_ite, if_true]
        split <;> rfl
      · next hne =>
        rw [lookup_cons_eq_ite, ih h.of_cons]
        simp only [lookup_cons_eq_ite, if_neg hne]
        by_cases hj : j = c
        · subst hj; simp [Ne.symm hne]
        · simp [hj]

def write (t : Table) (id : String) (half : Half) (row : HalfRow) : Table :=
  ⟨alter id (Halves.write · half row) t.entries, pairwise_alter id _ t.ascending⟩

def find? (t : Table) (id : String) : Option Halves := t.entries.lookup id

def get? (t : Table) (id : String) (half : Half) : Option HalfRow := (t.find? id).bind (·.get? half)

theorem find?_write (t : Table) (id j : String) (half : Half) (row : HalfRow) :
    (t.write id half row).find? j =
      if j = id then some (Halves.write (t.find? id) half row) else t.find? j :=
  lookup_alter id j _ t.ascending

/-- A row that is written replaces the one for the same half of the same request, and no other. -/
theorem get?_write (t : Table) (id j : String) (half other : Half) (row : HalfRow) :
    (t.write id half row).get? j other =
      if j = id ∧ other = half then some row else t.get? j other := by
  rw [get?, find?_write]
  by_cases hj : j = id
  · subst hj
    simp only [if_true, Option.bind_some, Halves.get?_write, true_and]
    rfl
  · simp only [hj, false_and, if_false]
    rfl

/-- The number of correlation ids in a table. -/
def size (t : Table) : Nat := t.entries.length

/-- What is found in a list whose ids come after another one comes after it, too. -/
theorem lt_of_lookup {x y : String} {w : Halves} {l : List (String × Halves)}
    (hl : ∀ e ∈ l, y < e.1) (h : l.lookup x = some w) : y < x := by
  refine Decidable.byContradiction fun hyx => ?_
  have hnone : l.lookup x = none :=
    lookup_eq_none fun e he => Std.lt_of_le_of_lt (Std.not_lt.1 hyx) (hl e he)
  rw [hnone] at h
  cases h

theorem eq_of_lookup {l m : List (String × Halves)} (hl : l.Pairwise (·.1 < ·.1))
    (hm : m.Pairwise (·.1 < ·.1)) (h : ∀ j, l.lookup j = m.lookup j) : l = m := by
  induction l generalizing m with
  | nil =>
    cases m with
    | nil => rfl
    | cons b m =>
      obtain ⟨c, v⟩ := b
      have := h c
      rw [lookup_cons_eq_ite, if_pos rfl] at this
      cases this
  | cons a l ih =>
    obtain ⟨i, u⟩ := a
    cases m with
    | nil =>
      have := h i
      rw [lookup_cons_eq_ite, if_pos rfl] at this
      cases this
    | cons b m =>
      obtain ⟨c, v⟩ := b
      have hi : ∀ e ∈ l, i < e.1 := fun e => List.rel_of_pairwise_cons hl
      have hc : ∀ e ∈ m, c < e.1 := fun e => List.rel_of_pairwise_cons hm
      -- Were the first ids different, each would be found in the rest of the other list, after it.
      have hic : i = c := by
        refine Decidable.byContradiction fun hne => ?_
        have h₁ := h i
        have h₂ := h c
        rw [lookup_cons_eq_ite, if_pos rfl, lookup_cons_eq_ite, if_neg hne] at h₁
        rw [lookup_cons_eq_ite, if_neg (Ne.symm hne), lookup_cons_eq_ite, if_pos rfl] at h₂
        exact String.lt_irrefl i (String.lt_trans (lt_of_lookup hi h₂) (lt_of_lookup hc h₁.symm))
      subst hic
      have huv := h i
      rw [lookup_cons_eq_ite, if_pos rfl, lookup_cons_eq_ite, if_pos rfl] at huv
      cases huv
      congr 1
      refine ih hl.of_cons hm.of_cons fun j => ?_
      by_cases hj : j = i
      · subst hj; rw [lookup_eq_none hi, lookup_eq_none hc]
      · have := h j
        rwa [lookup_cons_eq_ite, if_neg hj, lookup_cons_eq_ite, if_neg hj] at this

/-- Tables that hold the same rows are equal. -/
@[ext] theorem ext_get? {s t : Table} (h : ∀ id half, s.get? id half = t.get? id half) : s = t := by
  obtain ⟨l, hl⟩ := s
  obtain ⟨m, hm⟩ := t
  have : l = m := eq_of_lookup hl hm fun j => by
    have hj := h j
    simp only [get?, find?] at hj
    rcases hs : l.lookup j with _ | a <;> rcases ht : m.lookup j with _ | b
    · rfl
    · have h₁ := hj .start
      have h₂ := hj .finish
      have := b.present
      simp only [hs, ht, Halves.get?, Option.bind_none, Option.bind_some] at h₁ h₂
      simp [← h₁, ← h₂] at this
    · have h₁ := hj .start
      have h₂ := hj .finish
      have := a.present
      simp only [hs, ht, Halves.get?, Option.bind_none, Option.bind_some] at h₁ h₂
      simp [h₁, h₂] at this
    · refine congrArg some (Halves.ext_get? fun half => ?_)
      have := hj half
      simpa only [hs, ht, Option.bind_some] using this
  subst this
  rfl

end Table

end RequestWindows
