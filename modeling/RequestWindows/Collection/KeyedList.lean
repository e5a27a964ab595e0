/-! Bindings with distinct keys, in the order in which the keys were first bound. Binding a key
again replaces its value where it stands. -/
namespace RequestWindows

universe u v

/-- Bind `k` to `a` in a list of bindings: at the place of `k` if it has one, else at the end. -/
def assign {κ : Type u} {α : Type v} [DecidableEq κ] (k : κ) (a : α) :
    List (κ × α) → List (κ × α)
  | [] => [(k, a)]
  | b :: rest => if b.1 = k then (k, a) :: rest else b :: assign k a rest

section Assign

variable {κ : Type u} {α : Type v} [DecidableEq κ]

/-- Binding a key changes the list of keys only when the key is new. -/
theorem keys_assign (k : κ) (a : α) (l : List (κ × α)) :
    (assign k a l).map Prod.fst =
      if k ∈ l.map Prod.fst then l.map Prod.fst else l.map Prod.fst ++ [k] := by
  induction l with
  | nil => simp [assign]
  | cons b rest ih =>
    by_cases h : b.1 = k
    · simp [assign, h]
    · have h' : ¬k = b.1 := fun e => h e.symm
      simp only [assign, if_neg h, List.map_cons, ih, List.mem_cons, h', false_or]
      split <;> simp

theorem nodup_keys_assign (k : κ) (a : α) {l : List (κ × α)} (h : (l.map Prod.fst).Nodup) :
    ((assign k a l).map Prod.fst).Nodup := by
  rw [keys_assign]
  split
  · exact h
  · next hk => exact List.nodup_append.2 ⟨h, by simp, by rintro x hx y hy rfl; simp_all⟩

theorem lookup_cons_eq_ite (j c : κ) (a : α) (l : List (κ × α)) :
    ((c, a) :: l).lookup j = if j = c then some a else l.lookup j := by
  change (match j == c with | true => some a | false => l.lookup j) = _
  by_cases h : j = c
  · rw [if_pos h, beq_iff_eq.2 h]
  · rw [if_neg h, beq_eq_false_iff_ne.2 h]

theorem lookup_assign (k j : κ) (a : α) (l : List (κ × α)) :
    (assign k a l).lookup j = if j = k then some a else l.lookup j := by
  induction l with
  | nil => exact lookup_cons_eq_ite j k a []
  | cons b rest ih =>
    obtain ⟨c, v⟩ := b
    by_cases h : c = k
    · subst h
      rw [assign, if_pos rfl, lookup_cons_eq_ite, lookup_cons_eq_ite]
      split <;> rfl
    · rw [assign, if_neg h, lookup_cons_eq_ite, lookup_cons_eq_ite, ih]
      by_cases hj : j = c
      · subst hj; simp [h]
      · simp [hj]

theorem lookup_filter_ne (k j : κ) (l : List (κ × α)) :
    (l.filter (·.1 ≠ k)).lookup j = if j = k then none else l.lookup j := by
  induction l with
  | nil => simp
  | cons b rest ih =>
    obtain ⟨c, v⟩ := b
    by_cases h : c = k
    · subst h
      simp only [ne_eq, not_true_eq_false, decide_false, Bool.false_eq_true, not_false_eq_true,
        List.filter_cons_of_neg] at ih ⊢
      rw [ih, lookup_cons_eq_ite]
      split <;> rfl
    · rw [List.filter_cons_of_pos (by simpa using h), lookup_cons_eq_ite, lookup_cons_eq_ite, ih]
      by_cases hj : j = c
      · subst hj; simp [h]
      · simp [hj]

end Assign

/-- A list of bindings whose keys are distinct. -/
structure KeyedList (κ : Type u) (α : Type v) where
  /-- The bindings, oldest key first. -/
  entries : List (κ × α)
  nodup_keys : (entries.map Prod.fst).Nodup

namespace KeyedList

variable {κ : Type u} {α : Type v}

instance : EmptyCollection (KeyedList κ α) := ⟨⟨[], by simp⟩⟩

instance : Inhabited (KeyedList κ α) := ⟨∅⟩

@[ext] theorem ext {m n : KeyedList κ α} (h : m.entries = n.entries) : m = n := by
  cases m; cases n; simp_all

instance [DecidableEq κ] [DecidableEq α] : DecidableEq (KeyedList κ α) := fun m n =>
  decidable_of_iff (m.entries = n.entries) ⟨ext, fun h => by rw [h]⟩

/-- The keys, oldest first. -/
def keys (m : KeyedList κ α) : List κ := m.entries.map Prod.fst

/-- The number of bindings. -/
def size (m : KeyedList κ α) : Nat := m.entries.length

variable [DecidableEq κ]

/-- The value bound to a key. -/
def get? (m : KeyedList κ α) (k : κ) : Option α := m.entries.lookup k

/-- Bind a key, in place if it is bound and at the end otherwise. -/
def insert (m : KeyedList κ α) (k : κ) (a : α) : KeyedList κ α :=
  ⟨assign k a m.entries, nodup_keys_assign k a m.nodup_keys⟩

/-- Remove a key and its value. -/
def erase (m : KeyedList κ α) (k : κ) : KeyedList κ α :=
  ⟨m.entries.filter (·.1 ≠ k), m.nodup_keys.sublist (List.filter_sublist.map _)⟩

/-- Bind a key and make it the youngest. -/
def insertLast (m : KeyedList κ α) (k : κ) (a : α) : KeyedList κ α :=
  ⟨(m.erase k).entries ++ [(k, a)], by
    simp only [List.map_append, List.map_cons, List.map_nil]
    refine List.nodup_append.2 ⟨(m.erase k).nodup_keys, by simp, ?_⟩
    rintro x hx y hy rfl
    simp_all [erase]⟩

/-- The bindings that remain when the `n` oldest are dropped. -/
def dropOldest (m : KeyedList κ α) (n : Nat) : KeyedList κ α :=
  ⟨m.entries.drop n, m.nodup_keys.sublist ((List.drop_sublist n _).map _)⟩

/-- Bind the pairs of a list one after another. -/
def ofList (l : List (κ × α)) : KeyedList κ α := l.foldl (fun m b => m.insert b.1 b.2) ∅

@[simp] theorem get?_empty (k : κ) : (∅ : KeyedList κ α).get? k = none := rfl

@[simp] theorem get?_insert (m : KeyedList κ α) (k j : κ) (a : α) :
    (m.insert k a).get? j = if j = k then some a else m.get? j :=
  lookup_assign k j a m.entries

@[simp] theorem get?_erase (m : KeyedList κ α) (k j : κ) :
    (m.erase k).get? j = if j = k then none else m.get? j :=
  lookup_filter_ne k j m.entries

@[simp] theorem get?_insertLast (m : KeyedList κ α) (k j : κ) (a : α) :
    (m.insertLast k a).get? j = if j = k then some a else m.get? j := by
  change ((m.erase k).entries ++ [(k, a)]).lookup j = _
  rw [List.lookup_append, lookup_cons_eq_ite]
  change ((m.erase k).get? j).or _ = _
  rw [get?_erase]
  split
  · rfl
  · exact Option.or_none

theorem get?_foldl_insert (l : List (κ × α)) (m : KeyedList κ α) (k : κ) :
    (l.foldl (fun m b => m.insert b.1 b.2) m).get? k = (l.reverse.lookup k).or (m.get? k) := by
  induction l generalizing m with
  | nil => rfl
  | cons b rest ih =>
    rw [List.foldl_cons, ih, get?_insert, List.reverse_cons, List.lookup_append, Option.or_assoc,
      lookup_cons_eq_ite]
    congr 1
    split <;> rfl

/-- Of several pairs with one key the last one counts. -/
@[simp] theorem get?_ofList (l : List (κ × α)) (k : κ) :
    (ofList l).get? k = l.reverse.lookup k := by
  rw [ofList, get?_foldl_insert, get?_empty, Option.or_none]

theorem mem_keys_iff {m : KeyedList κ α} {k : κ} : k ∈ m.keys ↔ (m.get? k).isSome = true := by
  rw [keys, get?]
  induction m.entries with
  | nil => simp
  | cons b rest ih =>
    obtain ⟨c, v⟩ := b
    rw [List.map_cons, List.mem_cons, lookup_cons_eq_ite, ih]
    by_cases h : k = c <;> simp [h]

end KeyedList

end RequestWindows
