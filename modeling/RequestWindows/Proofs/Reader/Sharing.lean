import RequestWindows.Proofs.Reader.Recency

namespace RequestWindows

namespace Warehouse

/-- A database that has at most one table for each window. -/
structure Distinct (w : Warehouse) (database : Database) : Prop where
  serial_eq : ∀ {m n t u}, w.tables.get? m = some t → w.tables.get? n = some u →
    t.database = database → u.database = database → t.window = u.window → m = n

/-- The tables in a database, by the windows that it has a table for. -/
theorem Distinct.tableNames_perm {w : Warehouse} {database : Database} {windows : List Int}
    (h : w.Distinct database) (hnodup : windows.Nodup)
    (hwindows : ∀ k, w.hasTable database k = true ↔ k ∈ windows) :
    (w.tableNames database).Perm (windows.map tableName) := by
  have hentries : w.tables.entries.Nodup := List.Nodup.of_map Prod.fst w.tables.nodup_keys
  have hdistinct : ((w.tables.entries.filter fun b => b.2.database = database).map
      fun b => b.2.window).Nodup := by
    apply List.Nodup.map_on _ (hentries.filter _)
    rintro ⟨m, t⟩ ha ⟨n, u⟩ hb hwindow
    obtain ⟨hta, hdatabase⟩ := List.mem_filter.mp ha
    obtain ⟨hub, hdatabase'⟩ := List.mem_filter.mp hb
    have ht : w.tables.get? m = some t := KeyedList.mem_entries_iff.mp hta
    have hu : w.tables.get? n = some u := KeyedList.mem_entries_iff.mp hub
    obtain rfl :=
      h.serial_eq ht hu (of_decide_eq_true hdatabase) (of_decide_eq_true hdatabase') hwindow
    rw [ht] at hu
    cases hu
    rfl
  have hsame : ((w.tables.entries.filter fun b => b.2.database = database).map
      fun b => b.2.window).Perm windows := by
    apply (List.perm_ext_iff_of_nodup hdistinct hnodup).mpr
    intro k
    rw [← hwindows, hasTable_iff, List.mem_map]
    constructor
    · rintro ⟨⟨n, t⟩, hmem, rfl⟩
      obtain ⟨hentry, hdatabase⟩ := List.mem_filter.mp hmem
      exact ⟨n, t, KeyedList.mem_entries_iff.mp hentry, of_decide_eq_true hdatabase, rfl⟩
    · rintro ⟨n, t, hget, hdatabase, rfl⟩
      refine ⟨(n, t), List.mem_filter.mpr ⟨KeyedList.mem_entries_iff.mpr hget, ?_⟩, rfl⟩
      exact decide_eq_true hdatabase
  have hnames := hsame.map tableName
  rw [List.map_map] at hnames
  exact (sortBy_perm _ _).trans hnames

variable {w w' : Warehouse} {name : String} {k : Int}

theorem taken_some_iff : w.Taken (some name) k ↔ ∃ n table, w.tables.get? n = some table ∧
    table.database = .shared name ∧ table.window = k := by
  rw [← hasTable_iff]
  constructor
  · rintro ⟨_, ⟨⟩, h⟩
    exact h
  · intro h
    exact ⟨name, rfl, h⟩

theorem Distinct.adds {table : StoredTable} (h : w.Distinct (.shared name))
    (hadd : w.Adds table w') (hfree : ¬w.Taken (some name) table.window) :
    w'.Distinct (.shared name) := by
  constructor
  intro m n t u ht hu hdatabase hdatabase' hwindow
  rw [hadd.get?] at ht hu
  split at ht
  · next hm =>
    cases ht
    split at hu
    · next hn => rw [hm, hn]
    · exact absurd (taken_some_iff.mpr ⟨n, u, hu, hdatabase', hwindow.symm⟩) hfree
  · split at hu
    · cases hu
      exact absurd (taken_some_iff.mpr ⟨m, t, ht, hdatabase, hwindow⟩) hfree
    · exact h.serial_eq ht hu hdatabase hdatabase' hwindow

end Warehouse

namespace Correlation

/-- The tables in a shared database are those of the stores that are kept and one each for other
windows, whose stores are not kept. -/
structure Leaves (s : Correlation) (name : String) (left : List Int) : Prop where
  shared : s.reader.shared = some name
  nodup : left.Nodup
  unkept : ∀ k ∈ left, k ∉ s.reader.cache.keys
  database : ∀ {k st table}, s.reader.cache.get? k = some st →
    s.warehouse.tables.get? st.serial = some table → table.database = .shared name
  taken : ∀ k, s.warehouse.Taken (some name) k ↔ k ∈ s.reader.cache.keys ∨ k ∈ left
  distinct : s.warehouse.Distinct (.shared name)

variable {s s' t : Correlation} {log : EventLog} {previous last : Option WindowStore}
  {store : WindowStore} {key : Int} {built left : List Int} {name : String}

/-- The tables in the shared database by name, each there once. -/
theorem Leaves.tableNames_perm (h : s.Leaves name left) :
    (s.reader.cache.keys ++ left).Nodup ∧
      (s.warehouse.tableNames (.shared name)).Perm
        ((s.reader.cache.keys ++ left).map tableName) := by
  have hnodup : (s.reader.cache.keys ++ left).Nodup := by
    apply List.nodup_append.mpr
    refine ⟨s.reader.cache.nodup_keys, h.nodup, ?_⟩
    rintro j hkept k hleft rfl
    exact h.unkept j hleft hkept
  refine ⟨hnodup, h.distinct.tableNames_perm hnodup ?_⟩
  intro k
  rw [Warehouse.hasTable_iff, ← Warehouse.taken_some_iff, h.taken, List.mem_append]

/-- In an empty database there is nothing that does not belong to a store that is kept. -/
theorem leaves_of_unused (hshared : s.reader.shared = some name) (hcache : s.reader.cache = ∅)
    (hunused : s.warehouse.tableNames (.shared name) = []) : s.Leaves name [] := by
  have hnone : ∀ {n table}, s.warehouse.tables.get? n = some table →
      table.database ≠ .shared name := by
    intro n table hget hdatabase
    have hmem : tableName table.window ∈ s.warehouse.tableNames (.shared name) := by
      unfold Warehouse.tableNames sortTexts
      rw [(sortBy_perm _ _).mem_iff, List.mem_map]
      refine ⟨(n, table), List.mem_filter.mpr ⟨KeyedList.mem_entries_iff.mpr hget, ?_⟩, rfl⟩
      exact decide_eq_true hdatabase
    rw [hunused] at hmem
    cases hmem
  refine ⟨hshared, .nil, (fun k hk => nomatch hk), ?_, ?_, ?_⟩
  · intro k st table hget
    rw [hcache] at hget
    cases hget
  · intro k
    rw [Warehouse.taken_some_iff, hcache]
    constructor
    · rintro ⟨n, table, hget, hdatabase, _⟩
      exact absurd hdatabase (hnone hget)
    · rintro (hk | hk)
      · cases hk
      · cases hk
  · constructor
    intro m n t u ht _ hdatabase
    exact absurd hdatabase (hnone ht)

/-- Where nothing has been left behind, there is no table for a window whose store is not kept. -/
theorem Leaves.free (h : s.Leaves name []) (hk : key ∉ s.reader.cache.keys) :
    ¬s.warehouse.Taken s.reader.shared key := by
  rw [h.shared, h.taken]
  rintro (hkept | hleft)
  · exact hk hkept
  · cases hleft

theorem Leaves.drop (h : s.Leaves name left) (hs : s.Sound) (n : Nat) :
    (s.drop n).Leaves name left where
  shared := h.shared
  nodup := h.nodup
  unkept k hk hkept := by
    have hkeys : (s.drop n).reader.cache.keys = s.reader.cache.keys.drop n :=
      KeyedList.keys_dropOldest _ n
    rw [hkeys] at hkept
    exact h.unkept k hk (List.mem_of_mem_drop hkept)
  database hget htable := h.database (KeyedList.get?_of_dropOldest hget) (tables_of_drop htable)
  taken k := by
    rw [Warehouse.taken_some_iff]
    constructor
    · rintro ⟨m, table, hget, hdatabase, rfl⟩
      have hbefore := tables_of_drop hget
      have htaken : s.warehouse.Taken (some name) table.window :=
        Warehouse.taken_some_iff.mpr ⟨m, table, hbefore, hdatabase, rfl⟩
      rcases (h.taken _).mp htaken with hkept | hleft
      · left
        obtain ⟨st, hst⟩ := Option.isSome_iff_exists.mp (KeyedList.mem_keys_iff.mp hkept)
        obtain ⟨_, _, own, hown, hwindow⟩ := hs.kept hst
        -- The table of a window in the database is that of its store, so it is gone if that is.
        obtain rfl := h.distinct.serial_eq hbefore hown hdatabase (h.database hst hown) hwindow.symm
        exact mem_keys_of_get? (get?_drop_of_live hst hget)
      · exact Or.inr hleft
    · rintro (hkept | hleft)
      · obtain ⟨st, hst⟩ := Option.isSome_iff_exists.mp (KeyedList.mem_keys_iff.mp hkept)
        obtain ⟨_, _, table, htable, hwindow⟩ := (sound_drop hs n).kept hst
        have hdatabase := h.database (KeyedList.get?_of_dropOldest hst) (tables_of_drop htable)
        exact ⟨st.serial, table, htable, hdatabase, hwindow⟩
      · have htaken := (h.taken k).mpr (Or.inr hleft)
        rw [← taken_drop hs n (h.unkept k hleft)] at htaken
        exact Warehouse.taken_some_iff.mp htaken
  distinct := by
    constructor
    intro m m' table table' hget hget'
    exact h.distinct.serial_eq (tables_of_drop hget) (tables_of_drop hget')

theorem Leaves.touch (h : s.Leaves name left) (hget : s.reader.cache.get? key = some store) :
    (s.touch key store).Leaves name left := by
  have hkeys : ∀ k, k ∈ (s.touch key store).reader.cache.keys ↔ k ∈ s.reader.cache.keys := by
    intro k
    rw [KeyedList.mem_keys_iff, get?_touch hget, KeyedList.mem_keys_iff]
  refine ⟨h.shared, h.nodup, ?_, ?_, ?_, h.distinct⟩
  · intro k hk
    rw [hkeys]
    exact h.unkept k hk
  · intro k st table hkept
    rw [get?_touch hget] at hkept
    exact h.database hkept
  · intro k
    rw [hkeys]
    exact h.taken k

/-- A store that is being built has its table before it is kept. -/
theorem Leaves.adds (h : s.Leaves name left) (hs : s.Sound) {table : StoredTable}
    (hreader : s'.reader = s.reader) (hfree : ¬s.warehouse.Taken s.reader.shared key)
    (hadd : s.warehouse.Adds table s'.warehouse)
    (hdatabase : table.database = s.warehouse.nextDatabase s.reader.shared)
    (hwindow : table.window = key) : s'.Leaves name (left ++ [key]) := by
  have hshared : table.database = .shared name := by
    rw [hdatabase, h.shared]
    rfl
  rw [h.shared] at hfree
  have hnew := hfree
  rw [h.taken, not_or] at hnew
  refine ⟨(congrArg Reader.shared hreader).trans h.shared, ?_, ?_, ?_, ?_, ?_⟩
  · refine List.nodup_append.mpr ⟨h.nodup, List.nodup_singleton key, ?_⟩
    rintro j hj _ hk rfl
    rw [List.mem_singleton.mp hk] at hj
    exact hnew.2 hj
  · intro k hk
    rw [hreader]
    rcases List.mem_append.mp hk with hold | hadded
    · exact h.unkept k hold
    · rw [List.mem_singleton.mp hadded]
      exact hnew.1
  · intro k st other hget hother
    rw [hreader] at hget
    rw [tables_of_adds hs hadd hget] at hother
    exact h.database hget hother
  · intro k
    rw [taken_of_adds hs.warehouse hadd, h.taken, hreader, List.mem_append, List.mem_singleton,
      or_assoc, hwindow]
    have hnamed : ∃ n, some name = some n ∧ table.database = .shared n := ⟨name, rfl, hshared⟩
    simp only [hnamed, and_true, eq_comm]
  · rw [← hwindow] at hfree
    exact h.distinct.adds hadd hfree

/-- A store whose table is there already is kept. -/
theorem Leaves.adopt (h : s.Leaves name (left ++ [key])) {table : StoredTable}
    (hlive : s.warehouse.tables.get? store.serial = some table)
    (hdatabase : table.database = .shared name) : (s.touch key store).Leaves name left := by
  obtain ⟨hnodup, _, hother⟩ := List.nodup_append.mp h.nodup
  have hget : ∀ k, (s.touch key store).reader.cache.get? k =
      if k = key then some store else s.reader.cache.get? k := get?_touch_new rfl
  have hkeys : ∀ k, k ∈ (s.touch key store).reader.cache.keys ↔
      k ∈ s.reader.cache.keys ∨ k = key := by
    intro k
    rw [KeyedList.mem_keys_iff, hget, KeyedList.mem_keys_iff]
    by_cases hk : k = key <;> simp [hk]
  refine ⟨h.shared, hnodup, ?_, ?_, ?_, h.distinct⟩
  · intro k hk
    rw [hkeys, not_or]
    exact ⟨h.unkept k (List.mem_append_left _ hk), hother k hk key (.head _)⟩
  · intro k st own hkept hown
    rw [hget] at hkept
    split at hkept
    · cases hkept
      change s.warehouse.tables.get? store.serial = some own at hown
      rw [hlive] at hown
      cases hown
      exact hdatabase
    · exact h.database hkept hown
  · intro k
    rw [hkeys, or_assoc, or_comm (a := k = key), ← List.mem_singleton, ← List.mem_append]
    exact h.taken k

theorem Leaves.keep (h : s.Leaves name left) (hs : s.Sound)
    (hlive : ∀ p, previous = some p → ∃ table, s.warehouse.tables.get? p.serial = some table)
    (hbuild : s.build log key previous = (s', .ok store)) :
    (s'.keep key store).Leaves name left := by
  obtain ⟨hfree, hreader, rfl, rows, hadd⟩ := build_ok hs hlive hbuild
  have hshared : s.warehouse.nextDatabase s.reader.shared = .shared name := by
    rw [h.shared]
    rfl
  have hadopted : (s'.touch key ⟨s.warehouse.next, key, s.reader.expiry⟩).Leaves name left :=
    (h.adds hs hreader hfree hadd rfl rfl).adopt hadd.at hshared
  rw [keep_eq_drop]
  exact hadopted.drop (sound_touch_new hs hreader rfl hadd rfl rfl rfl rfl) _

/-- While stores are built and kept one after another, nothing is left behind. -/
theorem InTurn.leaves (h : InTurn log s previous built t last) (hleft : s.Leaves name left)
    (hs : s.Sound)
    (hlive : ∀ p, previous = some p → ∃ table, s.warehouse.tables.get? p.serial = some table) :
    t.Leaves name left := by
  induction h with
  | nil s previous => exact hleft
  | @cons s s₁ t previous last store key rest hbuild _ ih =>
    have hsound := sound_keep hs hlive hbuild
    apply ih (hleft.keep hs hlive hbuild) hsound
    rintro p ⟨⟩
    exact live_keep hsound

end Correlation

end RequestWindows
