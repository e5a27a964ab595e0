import RequestWindows.Proofs.Reader.Sharing

namespace RequestWindows

namespace Correlation

/-- What is done with a reader: it is called for a directory as that is at the time, or closed. -/
inductive Service
  | call (log : EventLog) (c : Call)
  | close

def serve (s : Correlation) : Service → Correlation
  | .call log c => s.call log c
  | .close => s.close

def serveAll (s : Correlation) (services : List Service) : Correlation := services.foldl serve s

/-- The windows whose stores have been used since the reader was closed last, in the order of
use. -/
def usesAfter (s : Correlation) (uses : List Int) : Service → List Int
  | .call log c => uses ++ s.used log c.key
  | .close => []

def usesIn (s : Correlation) (uses : List Int) : List Service → List Int
  | [] => uses
  | a :: rest => (s.serve a).usesIn (s.usesAfter uses a) rest

/-- Whether a window cannot be loaded because one of the stores of its chain cannot be built. -/
def BreaksOff (s : Correlation) (log : EventLog) (key : Int) : Prop :=
  s.Builds log key ∧ (∃ keys, s.chain log key = .ok keys) ∧ ∃ e, (s.load log key).2 = .error e

/-- Whether in a series of services no store is ever tried that cannot be built. -/
def Unbroken (s : Correlation) : List Service → Prop
  | [] => True
  | .call log c :: rest => ¬s.BreaksOff log c.key ∧ (s.call log c).Unbroken rest
  | .close :: rest => s.close.Unbroken rest

/-- The stores that are kept live in one database, and nothing else does. -/
structure Shares (s : Correlation) (name : String) : Prop where
  shared : s.reader.shared = some name
  database : ∀ {k st table}, s.reader.cache.get? k = some st →
    s.warehouse.tables.get? st.serial = some table → table.database = .shared name
  kept : ∀ {n table}, s.warehouse.tables.get? n = some table → table.database = .shared name →
    ∃ k st, s.reader.cache.get? k = some st ∧ st.serial = n

theorem not_breaksOff_of_isSome {s : Correlation} {log : EventLog} {key : Int}
    (h : (s.load log key).2.toOption.isSome = true) : ¬s.BreaksOff log key := by
  rintro ⟨_, _, e, he⟩
  rw [he] at h
  cases h

variable {s s₁ t : Correlation} {log : EventLog} {previous last : Option WindowStore}
  {store : WindowStore} {key k : Int} {uses built : List Int} {name : String}

section Shares

/-- A table in the shared database is that of a store which is kept for its window. -/
theorem Shares.get?_window (h : s.Shares name) (hs : s.Sound) {n : Nat} {table : StoredTable}
    (hget : s.warehouse.tables.get? n = some table) (hdatabase : table.database = .shared name) :
    ∃ st, s.reader.cache.get? table.window = some st ∧ st.serial = n := by
  obtain ⟨k, st, hkept, rfl⟩ := h.kept hget hdatabase
  have hwindow : table.window = k := hs.window_eq hkept hget
  rw [hwindow]
  exact ⟨st, hkept, rfl⟩

/-- One window has one table in the shared database: it has one store, and a store has one table. -/
theorem Shares.distinct (h : s.Shares name) (hs : s.Sound) :
    s.warehouse.Distinct (.shared name) := by
  constructor
  intro m n t u ht hu hdatabase hdatabase' hwindow
  obtain ⟨st, hkept, rfl⟩ := h.get?_window hs ht hdatabase
  obtain ⟨st', hkept', rfl⟩ := h.get?_window hs hu hdatabase'
  rw [hwindow, hkept'] at hkept
  cases hkept
  rfl

/-- The stores that are kept have a database for themselves when nothing has been left behind. -/
theorem shares_iff_leaves (hs : s.Sound) : s.Shares name ↔ s.Leaves name [] := by
  constructor
  · intro h
    refine ⟨h.shared, .nil, (fun k hk => nomatch hk), h.database, ?_, h.distinct hs⟩
    intro k
    rw [Warehouse.taken_some_iff]
    constructor
    · rintro ⟨n, table, hget, hdatabase, rfl⟩
      obtain ⟨st, hkept, _⟩ := h.get?_window hs hget hdatabase
      exact Or.inl (mem_keys_of_get? hkept)
    · rintro (hk | hk)
      · obtain ⟨st, hkept⟩ := Option.isSome_iff_exists.mp (KeyedList.mem_keys_iff.mp hk)
        obtain ⟨_, _, table, hget, hwindow⟩ := hs.kept hkept
        exact ⟨st.serial, table, hget, h.database hkept hget, hwindow⟩
      · cases hk
  · intro h
    refine ⟨h.shared, h.database, ?_⟩
    intro n table hget hdatabase
    have htaken : s.warehouse.Taken (some name) table.window :=
      Warehouse.taken_some_iff.mpr ⟨n, table, hget, hdatabase, rfl⟩
    have hk := ((h.taken _).mp htaken).resolve_right List.not_mem_nil
    obtain ⟨st, hkept⟩ := Option.isSome_iff_exists.mp (KeyedList.mem_keys_iff.mp hk)
    obtain ⟨_, _, own, hown, hwindow⟩ := hs.kept hkept
    exact ⟨_, st, hkept,
      h.distinct.serial_eq hown hget (h.database hkept hown) hdatabase hwindow⟩

theorem not_mem_keys_keep (store : WindowStore) (hne : k ≠ key) (hk : k ∉ s.reader.cache.keys) :
    k ∉ (s.keep key store).reader.cache.keys := by
  rw [keys_keep]
  intro hmem
  rcases List.mem_append.mp (List.mem_of_mem_drop hmem) with hold | hnew
  · exact hk (List.mem_filter.mp hold).1
  · exact hne (List.mem_singleton.mp hnew)

/-- No store is kept for a window for which none has been built. -/
theorem InTurn.unkept (h : InTurn log s previous built t last) (hs : s.Sound)
    (hlive : ∀ p, previous = some p → ∃ table, s.warehouse.tables.get? p.serial = some table)
    (hk : k ∉ s.reader.cache.keys) (hbuilt : k ∉ built) : k ∉ t.reader.cache.keys := by
  induction h with
  | nil s previous => exact hk
  | @cons s s₁ t previous last store key rest hbuild _ ih =>
    obtain ⟨_, hreader, _⟩ := build_ok hs hlive hbuild
    have hsound := sound_keep hs hlive hbuild
    rw [List.mem_cons, not_or] at hbuilt
    rw [← hreader] at hk
    apply ih hsound _ (not_mem_keys_keep store hbuilt.1 hk) hbuilt.2
    rintro p ⟨⟩
    exact live_keep hsound

/-- As long as the stores that are kept have the shared database for themselves, no table is ever in
the way, and they have it for themselves afterwards if all that is tried can be built. -/
theorem load_shares (h : s.Shares name) (hs : s.Upkept uses) (log : EventLog) (key : Int) :
    (∀ e, (s.load log key).2 = .error e → e.concernsTable = false) ∧
      (¬s.BreaksOff log key → (s.load log key).1.Shares name) := by
  have hleaves := (shares_iff_leaves hs.sound).mp h
  rw [shares_iff_leaves (load_serves hs log key).1.sound]
  cases s.asked log key with
  | refused e load used error =>
    rw [load]
    refine ⟨?_, fun _ => hleaves⟩
    rintro e' ⟨⟩
    exact error
  | kept store get load used =>
    rw [load]
    refine ⟨?_, fun _ => hleaves.touch get⟩
    rintro e ⟨⟩
  | built keys chain builds load used =>
    obtain ⟨t, last, hturn, hend⟩ := loadSealed_cases chain builds.2.1
    obtain ⟨hnodup, hunkept, _⟩ := chain_windows chain builds.2.1
    have hlive := hs.sound.live_of_get? (keys.head?.getD key - s.reader.interval.millis)
    obtain ⟨hupkept, _, hlast⟩ := hturn.upkept hs hlive
    have hbuilt := hturn.leaves hleaves hs.sound hlive
    rw [load]
    rcases hend with ⟨store, hload, _⟩ | ⟨k, rest, u, e, hsplit, hfail, hload⟩
    · rw [hload]
      refine ⟨?_, fun _ => hbuilt⟩
      rintro e ⟨⟩
    · rw [hsplit, List.nodup_append] at hnodup
      rw [hsplit] at hunkept
      -- The window that failed is neither kept nor built yet, so that no table has its name.
      have hfree : ¬t.warehouse.Taken t.reader.shared k := by
        apply hbuilt.free
        apply hturn.unkept hs.sound hlive (hunkept k (List.mem_append_right _ (.head _)))
        intro hbuilt
        exact hnodup.2.2 k hbuilt k (.head _) rfl
      rw [hload]
      constructor
      · rintro e' ⟨⟩
        exact (build_error hupkept.sound.warehouse hupkept.sound.expiry hlast hfail).resolve_right
          fun hin => hfree hin.2
      · intro hbroken
        refine absurd ⟨builds, ⟨keys, chain⟩, e, ?_⟩ hbroken
        rw [load, hload]

theorem shares_of_unused (hshared : s.reader.shared = some name) (hcache : s.reader.cache = ∅)
    (hunused : s.warehouse.tableNames (.shared name) = []) : s.Shares name := by
  have hleaves := leaves_of_unused hshared hcache hunused
  refine ⟨hshared, hleaves.database, ?_⟩
  intro n table hget hdatabase
  have htaken : s.warehouse.Taken (some name) table.window :=
    Warehouse.taken_some_iff.mpr ⟨n, table, hget, hdatabase, rfl⟩
  rw [← hshared] at htaken
  refine absurd htaken (hleaves.free ?_)
  rw [hcache]
  exact List.not_mem_nil

/-- The tables in the shared database are those of the stores that are kept, each there once. -/
theorem Shares.tableNames_perm (h : s.Shares name) (hs : s.Sound) :
    (s.warehouse.tableNames (.shared name)).Perm (s.reader.cache.keys.map tableName) := by
  have htables := ((shares_iff_leaves hs).mp h).tableNames_perm.2
  rwa [List.append_nil] at htables

end Shares

section Close

theorem close_eq_drop (s : Correlation) : s.close = s.drop s.reader.cache.size := by
  have htake : s.reader.cache.entries.take s.reader.cache.size = s.reader.cache.entries :=
    List.take_length
  have hdrop : s.reader.cache.dropOldest s.reader.cache.size = ∅ :=
    KeyedList.ext List.drop_length
  unfold close drop
  rw [htake, hdrop]
  rfl

theorem close_upkept (hs : s.Sound) : s.close.Upkept [] := by
  refine ⟨?_, ?_⟩
  · rw [close_eq_drop]
    exact sound_drop hs _
  · rw [recent_nil]
    rfl

end Close

section Run

theorem upkept_of_empty (hw : s.warehouse.Sound) (he : 0 ≤ s.reader.expiry)
    (hcache : s.reader.cache = ∅) : s.Upkept [] := by
  refine ⟨⟨hw, he, ?_⟩, ?_⟩
  · intro k st hget
    rw [hcache] at hget
    cases hget
  · rw [hcache, recent_nil]
    rfl

theorem Upkept.serve (h : s.Upkept uses) (a : Service) :
    (s.serve a).Upkept (s.usesAfter uses a) ∧ s.reader.Alike (s.serve a).reader := by
  cases a with
  | call log c =>
    obtain ⟨hupkept, halike, _⟩ := load_serves h log c.key
    rw [← call_eq] at hupkept halike
    exact ⟨hupkept, halike⟩
  | close => exact ⟨close_upkept h.sound, rfl, rfl, rfl, rfl⟩

theorem Upkept.serveAll (h : s.Upkept uses) (services : List Service) :
    (s.serveAll services).Upkept (s.usesIn uses services) ∧
      s.reader.Alike (s.serveAll services).reader := by
  induction services generalizing s uses with
  | nil => exact ⟨h, .of_eq rfl⟩
  | cons a rest ih =>
    obtain ⟨hupkept, halike⟩ := h.serve a
    obtain ⟨hend, hsame⟩ := ih hupkept
    exact ⟨hend, halike.trans hsame⟩

theorem Shares.serveAll (h : s.Shares name) (hs : s.Upkept uses) (services : List Service)
    (hunbroken : s.Unbroken services) : (s.serveAll services).Shares name := by
  induction services generalizing s uses with
  | nil => exact h
  | cons a rest ih =>
    have hupkept := (hs.serve a).1
    cases a with
    | call log c =>
      obtain ⟨hbuilt, hrest⟩ := hunbroken
      have hshares := (load_shares h hs log c.key).2 hbuilt
      rw [← call_eq] at hshares
      exact ih hshares hupkept hrest
    | close =>
      have hshares : s.close.Shares name := by
        rw [shares_iff_leaves (close_upkept hs.sound).sound, close_eq_drop]
        exact ((shares_iff_leaves hs.sound).mp h).drop hs.sound _
      exact ih hshares hupkept hunbroken

end Run

section Negative

theorem load_of_negative (he : s.reader.expiry < 0) (hcache : s.reader.cache = ∅) (log : EventLog)
    (key : Int) : ∃ e, s.load log key = (s, .error e) ∧ e.concernsTable = false ∧
      e.leavesTable = false ∧ s.used log key = [] := by
  cases s.asked log key with
  | refused e load used error leaves => exact ⟨e, load, error, leaves, used⟩
  | kept store get load used =>
    rw [hcache] at get
    cases get
  | built keys chain builds load used =>
    have hlast := (chain_windows chain builds.2.1).2.2
    cases keys with
    | nil => cases hlast
    | cons first rest =>
      refine ⟨.store (.negativeExpiry s.reader.expiry), ?_, rfl, rfl, ?_⟩
      · rw [load]
        unfold loadSealed
        simp only [chain]
        rw [buildChain, build_of_negative he]
      · rw [used, builtIn, build_of_negative he]

theorem serve_of_negative (he : s.reader.expiry < 0) (hcache : s.reader.cache = ∅) (a : Service) :
    s.serve a = s ∧ s.usesAfter [] a = [] := by
  cases a with
  | call log c =>
    obtain ⟨e, hload, _, _, hused⟩ := load_of_negative he hcache log c.key
    refine ⟨?_, hused⟩
    change s.call log c = s
    rw [call_eq, hload]
  | close =>
    refine ⟨?_, rfl⟩
    change s.close = s
    obtain ⟨⟨interval, expiry, capacity, htwo, shared, cache⟩, warehouse, counters⟩ := s
    dsimp only at hcache
    subst hcache
    rfl

theorem serveAll_of_negative (he : s.reader.expiry < 0) (hcache : s.reader.cache = ∅)
    (services : List Service) : s.serveAll services = s ∧ s.usesIn [] services = [] := by
  induction services with
  | nil => exact ⟨rfl, rfl⟩
  | cons a rest ih =>
    obtain ⟨hsame, huses⟩ := serve_of_negative he hcache a
    have hall : s.serveAll (a :: rest) = (s.serve a).serveAll rest := rfl
    rw [hall, usesIn, hsame, huses]
    exact ih

end Negative

/-- Whatever a reader is called for and however often it is closed, even as its directory changes
and calls fail, it keeps live stores of the windows used last, and no more than there is room for. A
call never finds a store removed or lost, and the window that it loads is the one used last. Where
the stores share a database that nothing else is in, their tables are the only ones there and none
is ever in the way, as long as every store that has been tried could be built. -/
theorem keeps_recent (s : Correlation) (services : List Service) (hw : s.warehouse.Sound)
    (hcache : s.reader.cache = ∅) :
    let t := s.serveAll services
    t.reader.cache.size ≤ s.reader.capacity ∧
      (∀ k st, t.reader.cache.get? k = some st → st.window = k ∧
        ∃ table, t.warehouse.tables.get? st.serial = some table ∧ table.window = k) ∧
      t.reader.cache.keys = recent s.reader.capacity (s.usesIn [] services) ∧
      (∀ log key, (∀ window, (t.load log key).2 ≠ .error (.store (.removed window))) ∧
        (∀ k, (t.load log key).2 ≠ .error (.lost k)) ∧
        ∀ store, (t.load log key).2 = .ok store →
          (t.load log key).1.reader.cache.entries.getLast? = some (key, store)) ∧
      ∀ name, s.reader.shared = some name → s.warehouse.tableNames (.shared name) = [] →
        s.Unbroken services →
        (t.warehouse.tableNames (.shared name)).Perm (t.reader.cache.keys.map tableName) ∧
          ∀ log key, (t.load log key).2 ≠ .error (.store .tableExists) := by
  intro t
  by_cases he : s.reader.expiry < 0
  · -- No store can be built, so nothing ever changes.
    obtain ⟨hsame, huses⟩ := serveAll_of_negative he hcache services
    have ht : t = s := hsame
    rw [ht, huses, hcache, recent_nil]
    refine ⟨Nat.zero_le _, ?_, rfl, ?_, ?_⟩
    · intro k st hget
      cases hget
    · intro log key
      obtain ⟨e, hload, herror, _⟩ := load_of_negative he hcache log key
      rw [hload]
      refine ⟨fun window => ?_, fun k => ?_, ?_⟩
      · rintro ⟨⟩
        cases herror
      · rintro ⟨⟩
        cases herror
      · rintro store ⟨⟩
    · intro name _ hunused _
      rw [hunused]
      refine ⟨.refl _, ?_⟩
      intro log key
      obtain ⟨e, hload, herror, _⟩ := load_of_negative he hcache log key
      rw [hload]
      rintro ⟨⟩
      cases herror
  -- The kept stores are those used last before the first service, and each service keeps it so.
  · have hstart := upkept_of_empty hw (Int.not_lt.mp he) hcache
    obtain ⟨ht, halike⟩ := hstart.serveAll services
    have hlength := ht.length_le
    rw [KeyedList.length_keys, halike.capacity] at hlength
    have hkeys := ht.keys
    rw [halike.capacity] at hkeys
    refine ⟨hlength, ?_, hkeys, ?_, ?_⟩
    · intro k st hget
      obtain ⟨hwindow, _, htable⟩ := ht.sound.kept hget
      exact ⟨hwindow, htable⟩
    · intro log key
      obtain ⟨_, _, herrors, hnewest⟩ := load_serves ht log key
      refine ⟨?_, ?_, hnewest⟩
      · intro window herror
        rcases herrors _ herror with h | h
        · cases h
        · cases h
      · intro k herror
        rcases herrors _ herror with h | h
        · cases h
        · cases h
    · intro name hshared hunused hunbroken
      have hshares := (shares_of_unused hshared hcache hunused).serveAll hstart services hunbroken
      refine ⟨hshares.tableNames_perm ht.sound, ?_⟩
      intro log key herror
      cases (load_shares hshares ht log key).1 _ herror

/-- A reader of windows of ten milliseconds, whose stores are to share a database. -/
def sharing : Correlation :=
  { tenMillis 20 with reader := { (tenMillis 20).reader with shared := some "memory" } }

def crossingCalls : List Service :=
  [.call (.ofFiles crossingFiles) (.load 30), .call (.ofFiles crossingFiles) (.latencies 20),
    .call (.ofFiles crossingFiles) (.load 10)]

theorem unbroken_crossing : sharing.Unbroken crossingCalls := by
  refine ⟨?_, ?_, ?_, trivial⟩
  · exact not_breaksOff_of_isSome (by decide +kernel)
  · exact not_breaksOff_of_isSome (by decide +kernel)
  · exact not_breaksOff_of_isSome (by decide +kernel)

/-- The chain of the first call has three windows, of which the second is then used again. -/
theorem second_window_outlives_third :
    (sharing.serveAll crossingCalls).reader.cache.keys = [20, 10] ∧
      ((sharing.serveAll crossingCalls).warehouse.tableNames (.shared "memory")).Perm
        ["http_rq_20", "http_rq_10"] := by
  obtain ⟨_, _, hkeys, _, hshared⟩ :=
    keeps_recent sharing crossingCalls Warehouse.sound_empty rfl
  have huses : sharing.usesIn [] crossingCalls = [10, 20, 30, 20, 10] := by decide +kernel
  have hrecent : recent sharing.reader.capacity [10, 20, 30, 20, 10] = [20, 10] := by decide
  rw [huses, hrecent] at hkeys
  obtain ⟨htables, _⟩ := hshared "memory" rfl rfl unbroken_crossing
  rw [hkeys] at htables
  exact ⟨hkeys, htables⟩

end Correlation

end RequestWindows
