import RequestWindows.Collection.KeyedList

namespace RequestWindows

universe u v

variable {κ : Type u} {α : Type v} [DecidableEq κ]

theorem lookup_eq_some_iff_mem {l : List (κ × α)} (h : (l.map Prod.fst).Nodup) {k : κ} {a : α} :
    l.lookup k = some a ↔ (k, a) ∈ l := by
  induction l with
  | nil => simp
  | cons b rest ih =>
    obtain ⟨c, v⟩ := b
    rw [List.map_cons, List.nodup_cons] at h
    rw [lookup_cons_eq_ite, List.mem_cons]
    by_cases hk : k = c
    · subst hk
      rw [if_pos rfl]
      constructor
      · intro he
        cases he
        exact Or.inl rfl
      · rintro (he | he)
        · cases he
          rfl
        · exact absurd (List.mem_map_of_mem he) h.1
    · rw [if_neg hk, ih h.2]
      constructor
      · exact Or.inr
      · rintro (he | he)
        · cases he
          exact absurd rfl hk
        · exact he

namespace KeyedList

theorem mem_entries_iff {m : KeyedList κ α} {k : κ} {a : α} :
    (k, a) ∈ m.entries ↔ m.get? k = some a :=
  (lookup_eq_some_iff_mem m.nodup_keys).symm

theorem get?_eq_none_iff {m : KeyedList κ α} {k : κ} : m.get? k = none ↔ k ∉ m.keys := by
  rw [mem_keys_iff, Bool.not_eq_true, Option.isSome_eq_false_iff, Option.isNone_iff_eq_none]

theorem get?_of_dropOldest {m : KeyedList κ α} {n : Nat} {k : κ} {a : α}
    (h : (m.dropOldest n).get? k = some a) : m.get? k = some a := by
  rw [← mem_entries_iff] at h ⊢
  exact List.mem_of_mem_drop h

/-- Every binding is either among those dropped or among those that remain. -/
theorem mem_take_or_get?_dropOldest {m : KeyedList κ α} {k : κ} {a : α} (n : Nat)
    (h : m.get? k = some a) :
    (k, a) ∈ m.entries.take n ∨ (m.dropOldest n).get? k = some a := by
  rw [← mem_entries_iff] at h
  rw [← List.take_append_drop n m.entries, List.mem_append] at h
  exact h.imp id mem_entries_iff.mp

theorem ne_of_take_of_dropOldest {m : KeyedList κ α} {n : Nat} {j k : κ} {a b : α}
    (ht : (j, a) ∈ m.entries.take n) (hd : (m.dropOldest n).get? k = some b) : j ≠ k := by
  rintro rfl
  have hnodup := m.nodup_keys
  rw [← List.take_append_drop n m.entries, List.map_append, List.nodup_append] at hnodup
  exact hnodup.2.2 j (List.mem_map_of_mem (f := Prod.fst) ht) j
    (List.mem_map_of_mem (f := Prod.fst) (mem_entries_iff.mpr hd)) rfl

/-- The youngest binding outlives the dropping of all surplus ones. -/
theorem get?_dropOldest_insertLast {m : KeyedList κ α} {k : κ} {a : α} {n : Nat}
    (h : n < (m.insertLast k a).size) : ((m.insertLast k a).dropOldest n).get? k = some a := by
  rw [← mem_entries_iff]
  change (k, a) ∈ ((m.erase k).entries ++ [(k, a)]).drop n
  have hlen : n ≤ (m.erase k).entries.length := by
    have hsize : (m.insertLast k a).size = (m.erase k).entries.length + 1 := by
      simp [size, insertLast]
    omega
  rw [List.drop_append_of_le_length hlen]
  exact List.mem_append_right _ (List.mem_singleton.mpr rfl)

theorem assign_of_not_mem {k : κ} (a : α) {l : List (κ × α)} (h : k ∉ l.map Prod.fst) :
    assign k a l = l ++ [(k, a)] := by
  induction l with
  | nil => rfl
  | cons b rest ih =>
    rw [List.map_cons, List.mem_cons, not_or] at h
    rw [assign, if_neg (fun heq => h.1 heq.symm), ih h.2]
    rfl

theorem entries_foldl_insert (l : List (κ × α)) (m : KeyedList κ α)
    (h : ((m.entries ++ l).map Prod.fst).Nodup) :
    (l.foldl (fun m b => m.insert b.1 b.2) m).entries = m.entries ++ l := by
  induction l generalizing m with
  | nil => exact (List.append_nil m.entries).symm
  | cons b rest ih =>
    have hnew : b.1 ∉ m.entries.map Prod.fst := by
      rw [List.map_append, List.nodup_append] at h
      intro hmem
      exact h.2.2 b.1 hmem b.1 (.head _) rfl
    have hentries : (m.insert b.1 b.2).entries = m.entries ++ [b] := assign_of_not_mem b.2 hnew
    rw [List.foldl_cons, ih, hentries, List.append_assoc]
    · rfl
    · rw [hentries, List.append_assoc]
      exact h

/-- Binding the pairs of a list with distinct keys gives back the list. -/
theorem ofList_entries (m : KeyedList κ α) : ofList m.entries = m := by
  apply ext
  exact entries_foldl_insert m.entries ∅ m.nodup_keys

end KeyedList

end RequestWindows
