import RequestWindows.Proofs.Reader.Run

namespace RequestWindows

/-- Readers that differ at most in the stores that they keep. -/
structure Reader.Alike (r r' : Reader) : Prop where
  interval : r'.interval = r.interval
  expiry : r'.expiry = r.expiry
  capacity : r'.capacity = r.capacity
  shared : r'.shared = r.shared

theorem Reader.Alike.of_eq {r r' : Reader} (h : r' = r) : r.Alike r' := by
  rw [h]
  exact ⟨rfl, rfl, rfl, rfl⟩

theorem Reader.Alike.trans {r r' r'' : Reader} (h : r.Alike r') (h' : r'.Alike r'') :
    r.Alike r'' :=
  ⟨h'.interval.trans h.interval, h'.expiry.trans h.expiry, h'.capacity.trans h.capacity,
    h'.shared.trans h.shared⟩

namespace Correlation

/-- Every store that is kept is live and is the store of its window. -/
structure Sound (s : Correlation) : Prop where
  warehouse : s.warehouse.Sound
  expiry : 0 ≤ s.reader.expiry
  kept : ∀ {k st}, s.reader.cache.get? k = some st → st.window = k ∧
    st.expiry = s.reader.expiry ∧
    ∃ t, s.warehouse.tables.get? st.serial = some t ∧ t.window = k

/-- Every table is that of a store that is kept. -/
def Tidy (s : Correlation) : Prop :=
  ∀ n t, s.warehouse.tables.get? n = some t →
    ∃ k st, s.reader.cache.get? k = some st ∧ st.serial = n

/-- `s'` keeps new stores for some windows. All else that it keeps, `s` keeps as well. -/
structure Grows (s : Correlation) (new : Int → Prop) (s' : Correlation) : Prop where
  alike : s.reader.Alike s'.reader
  sound : s'.Sound
  cache : ∀ {k st}, s'.reader.cache.get? k = some st → ¬new k → s.reader.cache.get? k = some st
  tables : ∀ {k st}, s'.reader.cache.get? k = some st → ¬new k →
    s'.warehouse.tables.get? st.serial = s.warehouse.tables.get? st.serial
  taken : ∀ {k}, k ∉ s.reader.cache.keys → ¬new k →
    (s'.warehouse.Taken s'.reader.shared k ↔ s.warehouse.Taken s.reader.shared k)
  tidy : s.Tidy → s'.Tidy

variable {s s' s'' : Correlation} {new new' : Int → Prop}

theorem Sound.window_eq (hs : s.Sound) {k : Int} {st : WindowStore} {t : StoredTable}
    (h : s.reader.cache.get? k = some st)
    (ht : s.warehouse.tables.get? st.serial = some t) : t.window = k := by
  obtain ⟨_, _, u, hu, hwindow⟩ := hs.kept h
  rw [ht] at hu
  cases hu
  exact hwindow

theorem mem_keys_of_get? {k : Int} {st : WindowStore} (h : s.reader.cache.get? k = some st) :
    k ∈ s.reader.cache.keys := by
  rw [KeyedList.mem_keys_iff, h]
  rfl

/-- A reader that keeps nothing, and no tables. -/
structure Fresh (s : Correlation) : Prop where
  expiry : 0 ≤ s.reader.expiry
  cache : s.reader.cache = ∅
  tables : s.warehouse.tables = ∅

theorem Fresh.sound (h : s.Fresh) : s.Sound := by
  refine ⟨⟨?_, ?_⟩, h.expiry, ?_⟩
  · intro n t hget
    rw [h.tables] at hget
    cases hget
  · intro n t m hget
    rw [h.tables] at hget
    cases hget
  · intro k st hget
    rw [h.cache] at hget
    cases hget

theorem Fresh.tidy (h : s.Fresh) : s.Tidy := by
  intro n t hget
  rw [h.tables] at hget
  cases hget

theorem fresh_tenMillis {expiry : Int} (h : 0 ≤ expiry) : (tenMillis expiry).Fresh :=
  ⟨h, rfl, rfl⟩

theorem Tidy.free (ht : s.Tidy) (hs : s.Sound) {k : Int} (hk : k ∉ s.reader.cache.keys) :
    ¬s.warehouse.Taken s.reader.shared k := by
  rintro ⟨name, _, htable⟩
  obtain ⟨n, t, hget, _, hwindow⟩ := Warehouse.hasTable_iff.mp htable
  obtain ⟨j, st, hkept, rfl⟩ := ht n t hget
  have hj : t.window = j := hs.window_eq hkept hget
  rw [hj] at hwindow
  rw [hwindow] at hkept
  exact hk (mem_keys_of_get? hkept)

theorem Fresh.unkept (h : s.Fresh) (k : Int) : k ∉ s.reader.cache.keys := by
  rw [h.cache]
  exact List.not_mem_nil

theorem Fresh.free (h : s.Fresh) (k : Int) : ¬s.warehouse.Taken s.reader.shared k :=
  h.tidy.free h.sound (h.unkept k)

theorem Grows.refl (hs : s.Sound) : s.Grows new s where
  alike := .of_eq rfl
  sound := hs
  cache h _ := h
  tables _ _ := rfl
  taken _ _ := Iff.rfl
  tidy h := h

theorem Grows.unkept (h : s.Grows new s') {k : Int} (hk : k ∉ s.reader.cache.keys)
    (hnew : ¬new k) : k ∉ s'.reader.cache.keys := by
  rw [← KeyedList.get?_eq_none_iff] at hk ⊢
  cases hget : s'.reader.cache.get? k with
  | none => rfl
  | some st =>
    rw [h.cache hget hnew] at hk
    cases hk

theorem Grows.trans (h : s.Grows new s') (h' : s'.Grows new' s'') :
    s.Grows (fun k => new k ∨ new' k) s'' where
  alike := h.alike.trans h'.alike
  sound := h'.sound
  cache hget hnew := h.cache (h'.cache hget fun hn => hnew (Or.inr hn)) fun hn => hnew (Or.inl hn)
  tables hget hnew := by
    have hlater : ¬new' _ := fun hn => hnew (Or.inr hn)
    have hbefore : ¬new _ := fun hn => hnew (Or.inl hn)
    rw [h'.tables hget hlater, h.tables (h'.cache hget hlater) hbefore]
  taken hk hnew := by
    have hlater : ¬new' _ := fun hn => hnew (Or.inr hn)
    have hbefore : ¬new _ := fun hn => hnew (Or.inl hn)
    rw [h'.taken (h.unkept hk hbefore) hlater, h.taken hk hbefore]
  tidy ht := h'.tidy (h.tidy ht)

theorem Grows.mono (h : s.Grows new s') (hmono : ∀ k, new k → new' k) : s.Grows new' s' where
  alike := h.alike
  sound := h.sound
  cache hget hnew := h.cache hget fun hn => hnew (hmono _ hn)
  tables hget hnew := h.tables hget fun hn => hnew (hmono _ hn)
  taken hk hnew := h.taken hk fun hn => hnew (hmono _ hn)
  tidy := h.tidy

/-- Drop the stores that have not been used for the longest time. -/
def drop (s : Correlation) (n : Nat) : Correlation :=
  { s.removeAll ((s.reader.cache.entries.take n).map Prod.snd) with
    reader := { s.reader with cache := s.reader.cache.dropOldest n } }

theorem keep_eq_drop (s : Correlation) (key : Int) (store : WindowStore) :
    s.keep key store = (s.touch key store).drop
      ((s.touch key store).reader.cache.size - (s.touch key store).reader.capacity) := rfl

theorem tables_drop (s : Correlation) (n m : Nat) :
    (s.drop n).warehouse.tables.get? m =
      if m ∈ (s.reader.cache.entries.take n).map (fun b => b.2.serial) then none
      else s.warehouse.tables.get? m := by
  unfold drop removeAll
  rw [Warehouse.get?_foldl_remove, List.map_map]
  rfl

theorem tables_drop_of_kept (hs : s.Sound) {n : Nat} {k : Int} {st : WindowStore}
    (h : (s.drop n).reader.cache.get? k = some st) :
    (s.drop n).warehouse.tables.get? st.serial = s.warehouse.tables.get? st.serial := by
  have hkept : s.reader.cache.get? k = some st := KeyedList.get?_of_dropOldest h
  rw [tables_drop, if_neg]
  intro hdropped
  obtain ⟨⟨j, old⟩, hmem, hserial⟩ := List.mem_map.mp hdropped
  have hold : s.reader.cache.get? j = some old :=
    KeyedList.mem_entries_iff.mp (List.mem_of_mem_take hmem)
  have hne : j ≠ k := KeyedList.ne_of_take_of_dropOldest hmem h
  -- Two stores with one serial number would have one table, and that is of one window only.
  obtain ⟨_, _, t, ht, hwindow⟩ := hs.kept hkept
  have hserial' : old.serial = st.serial := hserial
  rw [← hserial'] at ht
  have hj : t.window = j := hs.window_eq hold ht
  exact hne (hj.symm.trans hwindow)

theorem tables_of_drop {n m : Nat} {t : StoredTable}
    (h : (s.drop n).warehouse.tables.get? m = some t) : s.warehouse.tables.get? m = some t := by
  rw [tables_drop] at h
  split at h
  · cases h
  · exact h

theorem sound_drop (hs : s.Sound) (n : Nat) : (s.drop n).Sound := by
  refine ⟨hs.warehouse.foldl_remove _, hs.expiry, ?_⟩
  intro k st hget
  have hkept : s.reader.cache.get? k = some st := KeyedList.get?_of_dropOldest hget
  obtain ⟨hwindow, hexpiry, t, ht, htable⟩ := hs.kept hkept
  refine ⟨hwindow, hexpiry, t, ?_, htable⟩
  rw [tables_drop_of_kept hs hget]
  exact ht

/-- Dropping stores takes no table away but those of windows that were kept. -/
theorem taken_drop (hs : s.Sound) (n : Nat) {shared : Option String} {k : Int}
    (hk : k ∉ s.reader.cache.keys) :
    (s.drop n).warehouse.Taken shared k ↔ s.warehouse.Taken shared k := by
  constructor
  · rintro ⟨name, hname, htable⟩
    obtain ⟨m, t, hget, ht⟩ := Warehouse.hasTable_iff.mp htable
    exact ⟨name, hname, Warehouse.hasTable_iff.mpr ⟨m, t, tables_of_drop hget, ht⟩⟩
  · rintro ⟨name, hname, htable⟩
    obtain ⟨m, t, hget, hdatabase, hwindow⟩ := Warehouse.hasTable_iff.mp htable
    refine ⟨name, hname, Warehouse.hasTable_iff.mpr ⟨m, t, ?_, hdatabase, hwindow⟩⟩
    rw [tables_drop, if_neg]
    · exact hget
    · intro hdropped
      obtain ⟨⟨j, old⟩, hmem, hserial⟩ := List.mem_map.mp hdropped
      have hold : s.reader.cache.get? j = some old :=
        KeyedList.mem_entries_iff.mp (List.mem_of_mem_take hmem)
      have hserial' : old.serial = m := hserial
      rw [← hserial'] at hget
      have hj : t.window = j := hs.window_eq hold hget
      rw [hwindow] at hj
      rw [hj] at hk
      exact hk (mem_keys_of_get? hold)

theorem get?_drop_of_live {n : Nat} {k : Int} {st : WindowStore} {t : StoredTable}
    (hkept : s.reader.cache.get? k = some st)
    (hlive : (s.drop n).warehouse.tables.get? st.serial = some t) :
    (s.drop n).reader.cache.get? k = some st := by
  rcases KeyedList.mem_take_or_get?_dropOldest n hkept with hdropped | hstays
  · -- A store that has been dropped has no table any more.
    rw [tables_drop, if_pos] at hlive
    · cases hlive
    · exact List.mem_map_of_mem (f := fun b : Int × WindowStore => b.2.serial) hdropped
  · exact hstays

theorem Tidy.drop (ht : s.Tidy) (n : Nat) : (s.drop n).Tidy := by
  intro m t hget
  obtain ⟨k, st, hkept, rfl⟩ := ht m t (tables_of_drop hget)
  exact ⟨k, st, get?_drop_of_live hkept hget, rfl⟩

theorem grows_drop (hs : s.Sound) (n : Nat) : s.Grows (fun _ => False) (s.drop n) where
  alike := ⟨rfl, rfl, rfl, rfl⟩
  sound := sound_drop hs n
  cache hget _ := KeyedList.get?_of_dropOldest hget
  tables hget _ := tables_drop_of_kept hs hget
  taken hk _ := taken_drop hs n hk
  tidy ht := ht.drop n

theorem get?_touch {key : Int} {store : WindowStore}
    (h : s.reader.cache.get? key = some store) (k : Int) :
    (s.touch key store).reader.cache.get? k = s.reader.cache.get? k := by
  change (s.reader.cache.insertLast key store).get? k = _
  rw [KeyedList.get?_insertLast]
  split
  · next hk => rw [hk, h]
  · rfl

/-- Using a store that is kept changes only the order in which stores will be dropped. -/
theorem grows_touch (hs : s.Sound) {key : Int} {store : WindowStore}
    (h : s.reader.cache.get? key = some store) :
    s.Grows (fun _ => False) (s.touch key store) := by
  have hlookup := get?_touch h
  refine ⟨⟨rfl, rfl, rfl, rfl⟩, ⟨hs.warehouse, hs.expiry, ?_⟩, ?_, ?_, ?_, ?_⟩
  · intro k st hget
    rw [hlookup] at hget
    exact hs.kept hget
  · intro k st hget _
    rw [← hlookup]
    exact hget
  · intro k st _ _
    rfl
  · intro k _ _
    exact Iff.rfl
  · intro htidy n t hget
    obtain ⟨k, st, hkept, hserial⟩ := htidy n t hget
    refine ⟨k, st, ?_, hserial⟩
    rw [hlookup]
    exact hkept

section New

variable {key : Int} {store : WindowStore} {t : StoredTable} (hs : s.Sound)
  (hreader : s'.reader = s.reader) (hserial : store.serial = s.warehouse.next)
  (hadd : s.warehouse.Adds t s'.warehouse)

include hreader in
theorem get?_touch_new (k : Int) : (s'.touch key store).reader.cache.get? k =
    if k = key then some store else s.reader.cache.get? k := by
  change (s'.reader.cache.insertLast key store).get? k = _
  rw [KeyedList.get?_insertLast, hreader]

include hreader in
theorem get?_of_touch_new {k : Int} {st : WindowStore}
    (hget : (s'.touch key store).reader.cache.get? k = some st) (hk : ¬k = key) :
    s.reader.cache.get? k = some st := by
  rw [get?_touch_new hreader, if_neg hk] at hget
  exact hget

include hs hadd in
theorem tables_of_adds {k : Int} {st : WindowStore} (hget : s.reader.cache.get? k = some st) :
    s'.warehouse.tables.get? st.serial = s.warehouse.tables.get? st.serial := by
  obtain ⟨_, _, u, hu, _⟩ := hs.kept hget
  rw [hadd.before hs.warehouse.get?_next hu, hu]

include hs hreader hserial hadd

theorem sound_touch_new (hwindow : store.window = key) (hexpiry : store.expiry = s.reader.expiry)
    (hdatabase : t.database = s.warehouse.nextDatabase s.reader.shared) (ht : t.window = key) :
    (s'.touch key store).Sound := by
  refine ⟨hs.warehouse.of_adds hdatabase hadd, ?_, ?_⟩
  · change 0 ≤ s'.reader.expiry
    rw [hreader]
    exact hs.expiry
  · intro k st hget
    change st.window = k ∧ st.expiry = s'.reader.expiry ∧
      ∃ u, s'.warehouse.tables.get? st.serial = some u ∧ u.window = k
    rw [hreader]
    by_cases hk : k = key
    · rw [get?_touch_new hreader, if_pos hk] at hget
      cases hget
      refine ⟨hwindow.trans hk.symm, hexpiry, t, ?_, ht.trans hk.symm⟩
      rw [hserial]
      exact hadd.at
    · have hkept := get?_of_touch_new hreader hget hk
      obtain ⟨hw, he, u, hu, huw⟩ := hs.kept hkept
      refine ⟨hw, he, u, ?_, huw⟩
      rw [tables_of_adds hs hadd hkept]
      exact hu

omit hs in
theorem Tidy.touch_new (htidy : s.Tidy) (hkey : key ∉ s.reader.cache.keys) :
    (s'.touch key store).Tidy := by
  intro n u hget
  have htables : s'.warehouse.tables.get? n = some u := hget
  rw [hadd.get?] at htables
  split at htables
  · next hn =>
    refine ⟨key, store, ?_, hserial.trans hn.symm⟩
    rw [get?_touch_new hreader, if_pos rfl]
  · obtain ⟨k, st, hkept, hst⟩ := htidy n u htables
    refine ⟨k, st, ?_, hst⟩
    rw [get?_touch_new hreader, if_neg]
    · exact hkept
    · rintro rfl
      exact hkey (mem_keys_of_get? hkept)

theorem grows_touch_new (hkey : key ∉ s.reader.cache.keys) (hwindow : store.window = key)
    (hexpiry : store.expiry = s.reader.expiry)
    (hdatabase : t.database = s.warehouse.nextDatabase s.reader.shared) (ht : t.window = key) :
    s.Grows (· = key) (s'.touch key store) where
  alike := Reader.Alike.trans (.of_eq hreader) ⟨rfl, rfl, rfl, rfl⟩
  sound := sound_touch_new hs hreader hserial hadd hwindow hexpiry hdatabase ht
  cache hget hk := get?_of_touch_new hreader hget hk
  tables hget hk := tables_of_adds hs hadd (get?_of_touch_new hreader hget hk)
  taken {k} _ hk := by
    change s'.warehouse.Taken s'.reader.shared k ↔ _
    rw [hreader, taken_of_adds hs.warehouse hadd]
    constructor
    · rintro (htaken | ⟨hw, _⟩)
      · exact htaken
      · exact absurd (hw.symm.trans ht) hk
    · exact Or.inl
  tidy htidy := htidy.touch_new hreader hserial hadd hkey

end New

/-- The store that has just been built is never dropped: at least two stores are kept. -/
theorem get?_keep (s : Correlation) (key : Int) (store : WindowStore) :
    (s.keep key store).reader.cache.get? key = some store := by
  have hsize : 0 < (s.touch key store).reader.cache.size := by
    unfold touch KeyedList.size KeyedList.insertLast
    simp
  have hcapacity := (s.touch key store).reader.two_le_capacity
  have hsurplus : (s.touch key store).reader.cache.size - (s.touch key store).reader.capacity <
      (s.touch key store).reader.cache.size := by omega
  exact KeyedList.get?_dropOldest_insertLast hsurplus

end Correlation

end RequestWindows
